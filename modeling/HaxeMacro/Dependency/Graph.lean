import HaxeMacro.Dependency.Adjacency
import HaxeMacro.Entries
import HaxeMacro.Program.Path

/-! # The dependencies between modules

An edge leads from a module to one that it depends on, and has a reason. When a module changes, all
modules from which a path leads to it have to be built again.
-/

namespace HaxeMacro

/-- Why a module depends on another one. -/
inductive DependencyReason where
  | load
  | define
  | includes
  | typing
  deriving DecidableEq, Repr, Inhabited

def DependencyReason.text : DependencyReason → String
  | load => "macro-load"
  | define => "macro-define"
  | includes => "macro-include"
  | typing => "typing"

/-- The edges in both directions, and the reason of each edge. -/
structure DependencyGraph where
  /-- The modules that a module depends on. -/
  targets : Adjacency
  /-- The modules that depend on a module. -/
  sources : Adjacency
  reasons : Entries (Path × Path) DependencyReason
  mirrored : ∀ a b, a ∈ sources.of b ↔ b ∈ targets.of a
  explained : ∀ a b, (Entries.get? reasons (a, b)).isSome ↔ b ∈ targets.of a

namespace DependencyGraph

def empty : DependencyGraph where
  targets := .empty
  sources := .empty
  reasons := []
  mirrored := by simp [Adjacency.of_empty]
  explained := by simp [Adjacency.of_empty, Entries.get?]

variable (g : DependencyGraph)

/-! ## Questions -/

def edgeCount : Nat := g.targets.members.length

def reason? (source target : Path) : Option DependencyReason :=
  Entries.get? g.reasons (source, target)

def direct (module : Path) : List Path := Path.sort (g.targets.of module)

def newSources (found : List Path) (module : Path) : List Path :=
  (g.sources.of module).filter fun p => p ∉ found

def unfound (found : List Path) : List Path := g.sources.members.filter fun p => p ∉ found

theorem length_unfound_lt {found : List Path} {module : Path} (h : g.newSources found module ≠ []) :
    (g.unfound (found ++ g.newSources found module)).length < (g.unfound found).length := by
  obtain ⟨p, hp⟩ := List.exists_mem_of_ne_nil _ h
  obtain ⟨hmem, hnew⟩ := List.mem_filter.mp hp
  have hfilter : g.unfound (found ++ g.newSources found module) =
      (g.unfound found).filter fun p => p ∉ g.newSources found module := by
    simp [unfound, List.filter_filter, Bool.and_comm]
  rw [hfilter, List.length_filter_lt_length_iff_exists]
  refine ⟨p, List.mem_filter.mpr ⟨g.sources.mem_members_of_mem hmem, hnew⟩, ?_⟩
  simpa using hp

/-- What is found when the modules that wait are visited, each after those before it, and after
them the modules with edges to them. A visit finds a module, or there is one visit less to make. -/
def visit : (waiting found : List Path) → List Path
  | [], found => found
  | module :: waiting, found =>
    visit (waiting ++ g.newSources found module) (found ++ g.newSources found module)
termination_by waiting found => ((g.unfound found).length, waiting.length)
decreasing_by
  by_cases h : g.newSources found module = []
  · rw [h, List.append_nil, List.append_nil]
    exact Prod.Lex.right _ (Nat.lt_succ_self _)
  · exact Prod.Lex.left _ _ (g.length_unfound_lt h)

/-- The modules from which a path of at least one edge leads to a module, in order. -/
def dependents (module : Path) : List Path := Path.sort (g.visit [module] [])

/-! ## Changes -/

/-- Adds an edge, or gives the edge that is there a new reason. No module depends on itself. -/
def add (source target : Path) (reason : DependencyReason) : DependencyGraph :=
  if source = target then g
  else {
    targets := g.targets.link source target
    sources := g.sources.link target source
    reasons := Entries.set g.reasons (source, target) reason
    mirrored := by
      intro a b
      rw [Adjacency.mem_of_link, Adjacency.mem_of_link, g.mirrored, and_comm]
    explained := by
      intro a b
      rw [Adjacency.mem_of_link, Entries.get?_set, ← g.explained]
      by_cases h : (source, target) = (a, b)
      · cases h
        simp
      · have hne : ¬(a = source ∧ b = target) := fun heq => h (by rw [heq.1, heq.2])
        simp [h, hne] }

def invalidate (module : Path) : DependencyGraph where
  targets := g.targets.drop module
  sources := g.sources.unlinkAll (g.targets.of module) module
  reasons := Entries.eraseAll g.reasons ((g.targets.of module).map (module, ·))
  mirrored := by
    intro a b
    rw [Adjacency.mem_of_unlinkAll, Adjacency.mem_of_drop, g.mirrored]
    by_cases h : a = module <;> simp [h]
  explained := by
    intro a b
    rw [Entries.get?_eraseAll, Adjacency.mem_of_drop, ← g.explained]
    by_cases h : a = module
    · subst h
      simp [← g.explained]
    · simp [h, Ne.symm h]

variable {g}

theorem reason?_add {source target : Path} (h : source ≠ target) (reason : DependencyReason)
    (a b : Path) : (g.add source target reason).reason? a b =
      if (source, target) = (a, b) then some reason else g.reason? a b := by
  rw [add, if_neg h]
  exact Entries.get?_set g.reasons _ _ reason

theorem reason?_eq_none {a b : Path} (h : b ∉ g.targets.of a) : g.reason? a b = none := by
  rwa [← g.explained, Option.not_isSome_iff_eq_none] at h

theorem reason?_invalidate (module a b : Path) :
    (g.invalidate module).reason? a b = if a = module then none else g.reason? a b := by
  unfold invalidate reason?
  rw [Entries.get?_eraseAll]
  by_cases ha : a = module
  · subst ha
    have hnone : b ∉ g.targets.of a → Entries.get? g.reasons (a, b) = none := reason?_eq_none
    simpa using hnone
  · simp [ha, Ne.symm ha]

end DependencyGraph

/-! ## Edges that wait -/

/-- An edge that was found while macros ran; it counts only when they are finished. -/
structure PendingEdge where
  source : Path
  target : Path
  reason : DependencyReason
  deriving DecidableEq, Repr

namespace DependencyGraph

def commit (pending : List PendingEdge) (g : DependencyGraph) : DependencyGraph :=
  pending.foldl (fun g e => add g e.source e.target e.reason) g

end DependencyGraph

/-- Lets an edge wait, unless it is waiting already. A module that has no path depends on nothing,
and no module depends on itself. -/
def PendingEdge.record (pending : List PendingEdge) (source target : Path)
    (reason : DependencyReason) : List PendingEdge :=
  if source.isEmpty || source = target then pending
  else if ⟨source, target, reason⟩ ∈ pending then pending
  else pending ++ [⟨source, target, reason⟩]

end HaxeMacro
