import Mathlib.Data.Set.Card
import Mathlib.Data.List.Nodup
import HaxeMacro.Proofs.Dependency.Search

/-! # The dependency graph as a map of edges

What a graph keeps, in both directions and with the reasons, is one map from edges to reasons.
However a graph was made, its answers are those of the map that was made by the same changes.
-/

namespace HaxeMacro

/-! ## Maps of edges -/

/-- The reason of each edge that is there. -/
abbrev EdgeMap := Path × Path → Option DependencyReason

namespace EdgeMap

def empty : EdgeMap := fun _ => none

/-- The last reason of an edge counts. -/
def add (E : EdgeMap) (source target : Path) (reason : DependencyReason) : EdgeMap :=
  if source = target then E else Function.update E (source, target) (some reason)

def invalidate (E : EdgeMap) (module : Path) : EdgeMap :=
  fun e => if e.1 = module then none else E e

def edges (E : EdgeMap) : Set (Path × Path) := {e | (E e).isSome}

/-- A path of at least one edge leads from a module to another one. -/
def Reaches (E : EdgeMap) : Path → Path → Prop := Relation.TransGen fun a b => (a, b) ∈ E.edges

end EdgeMap

/-! ## Histories -/

inductive GraphChange where
  | add (source target : Path) (reason : DependencyReason)
  | invalidate (module : Path)

namespace GraphChange

def onGraph (g : DependencyGraph) : GraphChange → DependencyGraph
  | add source target reason => g.add source target reason
  | invalidate module => g.invalidate module

def onEdges (E : EdgeMap) : GraphChange → EdgeMap
  | add source target reason => E.add source target reason
  | invalidate module => E.invalidate module

end GraphChange

def DependencyGraph.after (changes : List GraphChange) : DependencyGraph :=
  changes.foldl GraphChange.onGraph empty

def EdgeMap.after (changes : List GraphChange) : EdgeMap := changes.foldl GraphChange.onEdges empty

/-! ## Representation -/

namespace DependencyGraph

/-- All parts of the graph hold the edges of the map, and no other ones. -/
structure Represents (g : DependencyGraph) (E : EdgeMap) : Prop where
  targets : ∀ a b, b ∈ g.targets.of a ↔ (a, b) ∈ E.edges
  sources : ∀ a b, a ∈ g.sources.of b ↔ (a, b) ∈ E.edges
  nodup_reasons : (Entries.keys g.reasons).Nodup
  reasons : ∀ e reason, (e, reason) ∈ g.reasons ↔ E e = some reason

variable {g : DependencyGraph} {E : EdgeMap}

/-- The reasons say which edges there are, so they say it all. -/
theorem represents_of_reasons (hnodup : (Entries.keys g.reasons).Nodup)
    (h : ∀ a b, g.reason? a b = E (a, b)) : g.Represents E := by
  have htargets : ∀ a b, b ∈ g.targets.of a ↔ (a, b) ∈ E.edges := by
    intro a b
    rw [← g.explained, ← reason?, h]
    rfl
  exact {
    targets := htargets
    sources := fun a b => (g.mirrored a b).trans (htargets a b)
    nodup_reasons := hnodup
    reasons := fun e reason => by rw [← Entries.get?_eq_some_iff hnodup, ← reason?, h] }

theorem Represents.reason?_eq (h : g.Represents E) (a b : Path) : g.reason? a b = E (a, b) := by
  apply Option.ext
  intro reason
  rw [reason?, Entries.get?_eq_some_iff h.nodup_reasons, h.reasons]

theorem represents_empty : empty.Represents EdgeMap.empty :=
  represents_of_reasons List.nodup_nil fun _ _ => rfl

theorem Represents.add (h : g.Represents E) (source target : Path) (reason : DependencyReason) :
    (g.add source target reason).Represents (E.add source target reason) := by
  by_cases heq : source = target
  · rwa [DependencyGraph.add, EdgeMap.add, if_pos heq, if_pos heq]
  · have hnodup : (Entries.keys (g.add source target reason).reasons).Nodup := by
      rw [DependencyGraph.add, if_neg heq]
      exact Entries.nodup_keys_set h.nodup_reasons _ _
    refine represents_of_reasons hnodup fun a b => ?_
    rw [reason?_add heq, EdgeMap.add, if_neg heq, h.reason?_eq, Function.update_apply]
    simp only [eq_comm]

theorem Represents.invalidate (h : g.Represents E) (module : Path) :
    (g.invalidate module).Represents (E.invalidate module) := by
  refine represents_of_reasons (Entries.nodup_keys_eraseAll h.nodup_reasons _) fun a b => ?_
  rw [reason?_invalidate, h.reason?_eq]
  rfl

theorem Represents.change (h : g.Represents E) (change : GraphChange) :
    (change.onGraph g).Represents (change.onEdges E) := by
  cases change with
  | add source target reason => exact h.add source target reason
  | invalidate module => exact h.invalidate module

theorem Represents.changes (h : g.Represents E) (changes : List GraphChange) :
    (changes.foldl GraphChange.onGraph g).Represents (changes.foldl GraphChange.onEdges E) := by
  induction changes generalizing g E with
  | nil => exact h
  | cons change changes ih => exact ih (h.change change)

/-! ## Answers -/

theorem Represents.edge_iff (h : g.Represents E) (a b : Path) : g.Edge a b ↔ (a, b) ∈ E.edges :=
  h.targets a b

theorem Represents.reaches_iff (h : g.Represents E) (a b : Path) :
    g.Reaches a b ↔ E.Reaches a b := by
  have hedge : g.Edge = fun a b => (a, b) ∈ E.edges := by
    funext a b
    exact propext (h.edge_iff a b)
  rw [Reaches, EdgeMap.Reaches, hedge]

def edges (g : DependencyGraph) : List (Path × Path) :=
  g.targets.sets.flatMap fun e => e.2.map (e.1, ·)

theorem mem_edges {a b : Path} : (a, b) ∈ g.edges ↔ g.Edge a b := by
  rw [Edge, g.targets.mem_of]
  simp [edges]

theorem nodup_edges : g.edges.Nodup := by
  refine List.nodup_flatMap.mpr ⟨fun e he => ?_, ?_⟩
  · exact (g.targets.nodup_sets e he).map fun _ _ h => (Prod.mk.inj h).2
  · refine (List.pairwise_map.mp g.targets.nodup_keys).imp fun {d e} hne => ?_
    rintro ⟨a, b⟩ hd he
    obtain ⟨_, _, hd⟩ := List.mem_map.mp hd
    obtain ⟨_, _, he⟩ := List.mem_map.mp he
    exact hne (Prod.mk.inj (hd.trans he.symm)).1

theorem length_edges : g.edges.length = g.edgeCount := by
  simp [edges, edgeCount, Adjacency.members, List.length_flatMap]

theorem Represents.encard_edges (h : g.Represents E) : E.edges.encard = g.edgeCount := by
  have hset : E.edges = {e | e ∈ g.edges} := by
    ext ⟨a, b⟩
    exact (h.edge_iff a b).symm.trans mem_edges.symm
  rw [hset, ← length_edges, ← List.toFinset_card_of_nodup nodup_edges,
    ← Set.encard_coe_eq_coe_finsetCard]
  simp

theorem Represents.mem_direct (h : g.Represents E) (module p : Path) :
    p ∈ g.direct module ↔ (module, p) ∈ E.edges := by
  rw [direct, Path.mem_sort]
  exact h.targets module p

theorem Represents.mem_dependents (h : g.Represents E) (module p : Path) :
    p ∈ g.dependents module ↔ E.Reaches p module :=
  DependencyGraph.mem_dependents.trans (h.reaches_iff p module)

/-- After any changes, the graph is exactly the map of edges that these changes make, and answers
all questions as the map does. -/
theorem after_refines (changes : List GraphChange) :
    (after changes).Represents (EdgeMap.after changes) ∧
    (EdgeMap.after changes).edges.encard = (after changes).edgeCount ∧
    (∀ module, ((after changes).direct module).Pairwise Path.Before ∧
      ∀ p, p ∈ (after changes).direct module ↔ (module, p) ∈ (EdgeMap.after changes).edges) ∧
    (∀ module, ((after changes).dependents module).Nodup ∧
      ∀ p, p ∈ (after changes).dependents module ↔ (EdgeMap.after changes).Reaches p module) := by
  have h : (after changes).Represents (EdgeMap.after changes) := represents_empty.changes changes
  exact ⟨h, h.encard_edges,
    fun module => ⟨Path.pairwise_before_sort ((after changes).targets.nodup_of module),
      h.mem_direct module⟩,
    fun module => ⟨nodup_dependents module, h.mem_dependents module⟩⟩

end DependencyGraph

end HaxeMacro
