import HaxeMacro.Proofs.Dependency.Search

/-! # Taking modules out of the graph

What is left of a graph when several modules are invalidated, one after the other: all edges but
those that leave one of the modules. If the modules are all from which a goal can be reached, then
no edge leads to one of them either.
-/

namespace HaxeMacro

namespace DependencyGraph

variable {g g' g'' : DependencyGraph}

/-- `g'` is `g` without the edges that leave one of the modules; all others keep their reasons and
their places. -/
structure Loses (g g' : DependencyGraph) (modules : List Path) : Prop where
  targets : ∀ a, g'.targets.of a = if a ∈ modules then [] else g.targets.of a
  sources : ∀ b, g'.sources.of b = (g.sources.of b).filter (· ∉ modules)
  reasons : ∀ a b, g'.reason? a b = if a ∈ modules then none else g.reason? a b

theorem loses_nil : g.Loses g [] where
  targets := by simp
  sources := fun _ => (List.filter_eq_self.mpr (by simp)).symm
  reasons := by simp

theorem loses_invalidate (module : Path) : g.Loses (g.invalidate module) [module] where
  targets := by
    intro a
    unfold invalidate Adjacency.drop Adjacency.of
    rw [Entries.get?_erase]
    by_cases ha : module = a
    · simp [ha]
    · simp [ha, Ne.symm ha]
  sources := by
    intro b
    unfold invalidate
    rw [Adjacency.of_unlinkAll]
    split
    · simp
    · -- Without an edge to `b` the module is not among the sources of `b`.
      rename_i hb
      rw [← g.mirrored] at hb
      symm
      rw [List.filter_eq_self]
      rintro p hp
      simp only [List.mem_singleton, decide_not, Bool.not_eq_eq_eq_not, Bool.not_true,
        decide_eq_false_iff_not]
      rintro rfl
      exact hb hp
  reasons := by simpa using reason?_invalidate module

theorem Loses.trans {modules others : List Path} (h : g.Loses g' modules)
    (h' : g'.Loses g'' others) : g.Loses g'' (modules ++ others) where
  targets := by
    intro a
    rw [h'.targets, h.targets]
    by_cases ha : a ∈ modules <;> simp [ha]
  sources := by
    intro b
    rw [h'.sources, h.sources]
    simp [List.filter_filter, Bool.and_comm]
  reasons := by
    intro a b
    rw [h'.reasons, h.reasons]
    by_cases ha : a ∈ modules <;> simp [ha]

theorem loses_invalidates (modules : List Path) :
    g.Loses (modules.foldl DependencyGraph.invalidate g) modules := by
  induction modules generalizing g with
  | nil => exact loses_nil
  | cons module modules ih => exact (loses_invalidate module).trans ih

theorem Loses.edge_iff {modules : List Path} (h : g.Loses g' modules) {a b : Path} :
    g'.Edge a b ↔ g.Edge a b ∧ a ∉ modules := by
  unfold Edge
  rw [h.targets]
  by_cases ha : a ∈ modules <;> simp [ha]

/-! ## A module with all its dependents -/

/-- `modules` are the goal and all modules that depend on it. -/
def Affects (g : DependencyGraph) (goal : Path) (modules : List Path) : Prop :=
  modules.Nodup ∧ ∀ p, p ∈ modules ↔ p = goal ∨ g.Reaches p goal

theorem Affects.goal_mem {goal : Path} {modules : List Path} (h : g.Affects goal modules) :
    goal ∈ modules :=
  (h.2 goal).mpr (Or.inl rfl)

theorem Affects.mem_of_edge {goal a b : Path} {modules : List Path} (h : g.Affects goal modules)
    (hedge : g.Edge a b) (hb : b ∈ modules) : a ∈ modules := by
  rcases (h.2 b).mp hb with rfl | hreaches
  · exact (h.2 a).mpr (Or.inr (Relation.TransGen.single hedge))
  · exact (h.2 a).mpr (Or.inr (Relation.TransGen.head hedge hreaches))

/-- No edge that is left has to do with an affected module. -/
theorem Loses.separate {goal a b : Path} {modules : List Path} (h : g.Loses g' modules)
    (haffects : g.Affects goal modules) (hedge : g'.Edge a b) : a ∉ modules ∧ b ∉ modules := by
  obtain ⟨hedge, ha⟩ := h.edge_iff.mp hedge
  exact ⟨ha, fun hb => ha (haffects.mem_of_edge hedge hb)⟩

theorem Loses.dependents_eq_nil {goal : Path} {modules : List Path} (h : g.Loses g' modules)
    (haffects : g.Affects goal modules) : g'.dependents goal = [] := by
  rw [List.eq_nil_iff_forall_not_mem]
  intro p hp
  obtain ⟨q, -, hedge⟩ := Relation.TransGen.tail'_iff.mp (mem_dependents.mp hp)
  exact (h.separate haffects hedge).2 haffects.goal_mem

end DependencyGraph

end HaxeMacro
