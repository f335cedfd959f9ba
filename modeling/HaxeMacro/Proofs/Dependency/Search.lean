import Mathlib.Logic.Relation
import HaxeMacro.Dependency.Graph
import HaxeMacro.Proofs.Dependency.PathOrder

/-! # The modules that depend on a module

The search for dependents finds each module from which a path leads to the goal, once, and no other
module. The goal itself is found if it lies on a cycle.
-/

namespace HaxeMacro

namespace DependencyGraph

variable {g : DependencyGraph}

/-- `a` depends on `b` directly. -/
def Edge (g : DependencyGraph) (a b : Path) : Prop := b ∈ g.targets.of a

/-- A path of at least one edge leads from `a` to `b`. -/
def Reaches (g : DependencyGraph) : Path → Path → Prop := Relation.TransGen g.Edge

theorem mem_sources {a b : Path} : a ∈ g.sources.of b ↔ g.Edge a b := g.mirrored a b

/-! ## One visit -/

theorem mem_newSources {found : List Path} {module p : Path} :
    p ∈ g.newSources found module ↔ g.Edge p module ∧ p ∉ found := by
  rw [newSources, List.mem_filter, mem_sources]
  simp

theorem nodup_newSources (found : List Path) (module : Path) : (g.newSources found module).Nodup :=
  (g.sources.nodup_of module).sublist List.filter_sublist

/-- What holds between visits: a path leads from each found module to the goal, and modules whose
sources are not all found yet wait. -/
structure Searching (g : DependencyGraph) (goal : Path) (waiting found : List Path) : Prop where
  nodup : found.Nodup
  sound : ∀ p ∈ found, g.Reaches p goal
  known : ∀ p ∈ waiting, p = goal ∨ p ∈ found
  closed : ∀ p q, q = goal ∨ q ∈ found → q ∉ waiting → g.Edge p q → p ∈ found

theorem searching_start (goal : Path) : g.Searching goal [goal] [] where
  nodup := List.nodup_nil
  sound := by simp
  known := by simp
  closed := by
    rintro p q (rfl | hq) hwait
    · simp at hwait
    · cases hq

theorem Searching.visit {goal module : Path} {waiting found : List Path}
    (h : g.Searching goal (module :: waiting) found) :
    g.Searching goal (waiting ++ g.newSources found module)
      (found ++ g.newSources found module) where
  nodup := by
    refine List.nodup_append.mpr ⟨h.nodup, nodup_newSources found module, ?_⟩
    rintro p hfound q hnew rfl
    exact (mem_newSources.mp hnew).2 hfound
  sound := by
    intro p hp
    rcases List.mem_append.mp hp with hp | hp
    · exact h.sound p hp
    · -- A new module has an edge to the visited one, which is the goal or leads there.
      have hedge := (mem_newSources.mp hp).1
      rcases h.known module List.mem_cons_self with rfl | hmodule
      · exact Relation.TransGen.single hedge
      · exact Relation.TransGen.head hedge (h.sound module hmodule)
  known := by
    intro p hp
    rcases List.mem_append.mp hp with hp | hp
    · exact (h.known p (List.mem_cons_of_mem _ hp)).imp_right (List.mem_append_left _)
    · exact Or.inr (List.mem_append_right _ hp)
  closed := by
    intro p q hq hwait hedge
    rw [List.mem_append, not_or] at hwait
    rw [List.mem_append, ← or_assoc] at hq
    have hq := hq.resolve_right hwait.2
    by_cases hmodule : q = module
    · -- The sources of the visited module are found now, if they were not before.
      subst hmodule
      by_cases hp : p ∈ found
      · exact List.mem_append_left _ hp
      · exact List.mem_append_right _ (mem_newSources.mpr ⟨hedge, hp⟩)
    · have hwait : q ∉ module :: waiting := by simp [hmodule, hwait.1]
      exact List.mem_append_left _ (h.closed p q hq hwait hedge)

/-! ## The search -/

theorem Searching.finish {goal : Path} {waiting found : List Path}
    (h : g.Searching goal waiting found) : g.Searching goal [] (g.visit waiting found) := by
  induction waiting, found using visit.induct g with
  | case1 found =>
    rw [DependencyGraph.visit]
    exact h
  | case2 found module waiting ih =>
    rw [DependencyGraph.visit]
    exact ih h.visit

theorem Searching.complete {goal p : Path} {found : List Path} (h : g.Searching goal [] found)
    (hp : g.Reaches p goal) : p ∈ found := by
  induction hp using Relation.TransGen.head_induction_on with
  | single hedge => exact h.closed _ _ (Or.inl rfl) List.not_mem_nil hedge
  | head hedge _ ih => exact h.closed _ _ (Or.inr ih) List.not_mem_nil hedge

theorem searching_visit (goal : Path) : g.Searching goal [] (g.visit [goal] []) :=
  (searching_start goal).finish

theorem mem_dependents {p goal : Path} : p ∈ g.dependents goal ↔ g.Reaches p goal := by
  rw [dependents, Path.mem_sort]
  exact ⟨(searching_visit goal).sound p, (searching_visit goal).complete⟩

theorem nodup_dependents (goal : Path) : (g.dependents goal).Nodup :=
  Path.nodup_sort (searching_visit goal).nodup

end DependencyGraph

end HaxeMacro
