import HaxeMacro.Engine.Flush
import HaxeMacro.Proofs.Dependency.Removal

/-! # Forgetting a module

When a module is forgotten, so are all modules that depend on it: their publications, the edges that
wait because of them, the edges that leave them and the macros that they provide. Nothing else
changes, and there is nothing left to forget when the same module is forgotten again.
-/

namespace HaxeMacro

variable {R I G : Type}

/-! ## Graphs -/

namespace DependencyGraph

variable {g : DependencyGraph}

theorem sets_invalidates (modules : List Path) :
    (modules.foldl invalidate g).targets.sets = g.targets.sets.filter (·.1 ∉ modules) := by
  induction modules generalizing g with
  | nil => exact (List.filter_eq_self.mpr (by simp)).symm
  | cons module modules ih =>
    rw [List.foldl_cons, ih]
    simp [invalidate, Adjacency.drop, Entries.erase, List.filter_filter, Bool.and_comm]

theorem invalidate_eq_self {module : Path} (h : ∀ e ∈ g.targets.sets, e.1 ≠ module) :
    g.invalidate module = g := by
  have hof : g.targets.of module = [] := by
    rw [List.eq_nil_iff_forall_not_mem]
    intro p hp
    obtain ⟨set, hset, -⟩ := g.targets.mem_of.mp hp
    exact h _ hset rfl
  have hdrop : g.targets.drop module = g.targets :=
    Adjacency.ext (List.filter_eq_self.mpr (by simpa using h))
  unfold invalidate
  simp only [hof, hdrop]
  rfl

theorem invalidates_idem {module : Path} {modules : List Path} (h : module ∈ modules) :
    (modules.foldl invalidate g).invalidate module = modules.foldl invalidate g := by
  refine invalidate_eq_self fun e he heq => ?_
  rw [sets_invalidates, List.mem_filter] at he
  simp [heq, h] at he

end DependencyGraph

theorem affects_affectedBy (g : DependencyGraph) (module : Path) :
    g.Affects module (EngineM.affectedBy g module) := by
  unfold EngineM.affectedBy
  refine ⟨List.nodup_cons.mpr ⟨by simp, ?_⟩, fun p => ?_⟩
  · exact (DependencyGraph.nodup_dependents module).sublist List.filter_sublist
  · rw [List.mem_cons, List.mem_filter, DependencyGraph.mem_dependents]
    by_cases hp : p = module <;> simp [hp]

/-! ## States -/

theorem Shared.foldl_forget (modules : List Path) (shared : Shared) :
    modules.foldl forget shared =
      { shared with
        modules := shared.modules.filter (·.1 ∉ modules)
        pending := shared.pending.filter (·.source ∉ modules)
        graph := modules.foldl DependencyGraph.invalidate shared.graph } := by
  induction modules generalizing shared with
  | nil =>
    rw [List.filter_eq_self.mpr (by simp), List.filter_eq_self.mpr (by simp)]
    rfl
  | cons module modules ih =>
    rw [List.foldl_cons, ih]
    simp [forget, List.filter_filter, bne, beq_eq_decide, Bool.and_comm]

namespace EngineState

variable (s : EngineState R I G)

def graph : DependencyGraph := s.compilation.shared.graph

/-- The state without the modules and what they provide, and with another graph. -/
def without (modules : List Path) (graph : DependencyGraph) : EngineState R I G :=
  let { engine, compilation, world } := s
  { engine := { engine with
      cache := { engine.cache with
        bindings := engine.cache.bindings.filter (·.2.module ∉ modules) } }
    compilation := { compilation with
      shared := { compilation.shared with
        modules := compilation.shared.modules.filter (·.1 ∉ modules)
        pending := compilation.shared.pending.filter (·.source ∉ modules)
        graph } }
    world }

theorem graph_without (modules : List Path) (graph : DependencyGraph) :
    (s.without modules graph).graph = graph := rfl

theorem without_without {module : Path} {modules : List Path} (graph : DependencyGraph)
    (h : module ∈ modules) :
    (s.without modules graph).without [module] graph = s.without modules graph := by
  have hfilter : ∀ {α : Type} (key : α → Path) (as : List α),
      (as.filter (key · ∉ modules)).filter (key · ∉ [module]) = as.filter (key · ∉ modules) := by
    intro α key as
    rw [List.filter_eq_self]
    intro a ha
    have hkey : key a ∉ modules := by simpa using (List.mem_filter.mp ha).2
    have hne : key a ≠ module := fun heq => hkey (heq ▸ h)
    simpa using hne
  simp only [without, hfilter]

end EngineState

/-! ## The operation -/

namespace EngineM

theorem run_invalidateModule (s : EngineState R I G) (module : Path) :
    (invalidateModule module).run s =
      (.ok (affectedBy s.graph module).length,
        s.without (affectedBy s.graph module)
          ((affectedBy s.graph module).foldl DependencyGraph.invalidate s.graph)) := by
  have h : (invalidateModule module).run s =
      (.ok (affectedBy s.graph module).length,
        { s with
          engine := { s.engine with
            cache := s.engine.cache.dropModules (affectedBy s.graph module) }
          compilation := s.compilation.mapShared fun shared =>
            (affectedBy s.graph module).foldl Shared.forget shared }) := rfl
  rw [h, Compilation.mapShared, Shared.foldl_forget]
  rfl

/-- Forgets the module and all modules that depend on it by the edges of the graph, and nothing
else, and separates them from all modules that are left. -/
theorem invalidateModule_forgets (s : EngineState R I G) (module : Path) :
    ∃ affected graph,
      s.graph.Affects module affected ∧
      s.graph.Loses graph affected ∧
      (∀ a b, graph.Edge a b → a ∉ affected ∧ b ∉ affected) ∧
      (invalidateModule module).run s = (.ok affected.length, s.without affected graph) ∧
      (invalidateModule module).run (s.without affected graph) =
        (.ok 1, s.without affected graph) := by
  have haffects := affects_affectedBy s.graph module
  have hloses := s.graph.loses_invalidates (affectedBy s.graph module)
  refine ⟨_, _, haffects, hloses, fun a b => hloses.separate haffects,
    run_invalidateModule s module, ?_⟩
  -- Nothing depends on the module any more, so the second time only the module itself is affected.
  have hagain : affectedBy
      ((affectedBy s.graph module).foldl DependencyGraph.invalidate s.graph) module =
        [module] := by
    rw [affectedBy, hloses.dependents_eq_nil haffects]
    rfl
  rw [run_invalidateModule, EngineState.graph_without, hagain, List.foldl_cons, List.foldl_nil,
    DependencyGraph.invalidates_idem haffects.goal_mem, s.without_without _ haffects.goal_mem]
  rfl

end EngineM

end HaxeMacro
