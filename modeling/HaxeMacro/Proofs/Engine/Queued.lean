import HaxeMacro.Proofs.Engine.Forgetting
import HaxeMacro.Rehearsal.Stage

/-! # Edges that wait when a module is forgotten

A module is forgotten with the modules from which a path of the graph leads to it. Edges that wait
for a flush are not part of the graph yet, so a module that depends on the forgotten one by such an
edge alone stays.
-/

namespace HaxeMacro

variable {R I G : Type}

namespace EngineState

variable (s : EngineState R I G)

/-- `a` depends on `b` by an edge of the graph or by one that waits. -/
def Noted (a b : Path) : Prop :=
  s.graph.Edge a b ∨ ∃ e ∈ s.compilation.shared.pending, e.source = a ∧ e.target = b

def DependsOn : Path → Path → Prop := Relation.TransGen s.Noted

def Publishes (p : Path) : Prop := ∃ e ∈ s.compilation.shared.modules, e.1 = p

def Provides (p : Path) : Prop := ∃ e ∈ s.engine.cache.bindings, e.2.module = p

variable {s}

theorem exists_filter_iff {α : Type} (key : α → Path) (as : List α) (modules : List Path)
    (p : Path) :
    (∃ a ∈ as.filter (key · ∉ modules), key a = p) ↔ (∃ a ∈ as, key a = p) ∧ p ∉ modules := by
  simp only [List.mem_filter, decide_eq_true_eq]
  constructor
  · rintro ⟨a, ⟨ha, hkey⟩, rfl⟩
    exact ⟨⟨a, ha, rfl⟩, hkey⟩
  · rintro ⟨⟨a, ha, rfl⟩, hkey⟩
    exact ⟨a, ⟨ha, hkey⟩, rfl⟩

theorem publishes_without {modules : List Path} {graph : DependencyGraph} {p : Path} :
    (s.without modules graph).Publishes p ↔ s.Publishes p ∧ p ∉ modules :=
  exists_filter_iff Prod.fst s.compilation.shared.modules modules p

theorem provides_without {modules : List Path} {graph : DependencyGraph} {p : Path} :
    (s.without modules graph).Provides p ↔ s.Provides p ∧ p ∉ modules :=
  exists_filter_iff (fun e : Reference × Binding => e.2.module) s.engine.cache.bindings modules p

end EngineState

namespace EngineM

variable (s : EngineState R I G) (module : Path)

theorem publishes_invalidateModule (p : Path) :
    ((invalidateModule module).run s).2.Publishes p ↔
      s.Publishes p ∧ ¬(p = module ∨ s.graph.Reaches p module) := by
  rw [run_invalidateModule, EngineState.publishes_without, (affects_affectedBy s.graph module).2]

theorem provides_invalidateModule (p : Path) :
    ((invalidateModule module).run s).2.Provides p ↔
      s.Provides p ∧ ¬(p = module ∨ s.graph.Reaches p module) := by
  rw [run_invalidateModule, EngineState.provides_without, (affects_affectedBy s.graph module).2]

/-- All traces of the modules that were noted to depend on a module are gone once it is forgotten,
exactly if each of them that had left a trace reaches the module by edges of the graph. -/
theorem invalidateModule_misses_none_iff :
    (∀ p, s.DependsOn p module →
        ¬((invalidateModule module).run s).2.Publishes p ∧
        ¬((invalidateModule module).run s).2.Provides p) ↔
      ∀ p, s.DependsOn p module → s.Publishes p ∨ s.Provides p →
        p = module ∨ s.graph.Reaches p module := by
  simp only [publishes_invalidateModule, provides_invalidateModule]
  exact forall₂_congr fun p _ => by rw [not_and_not_right, not_and_not_right, or_imp]

end EngineM

/-! ## A call that was remembered -/

namespace RememberedCall

def tools : Path := ⟨["macros"], "Tools"⟩

def caller : Path := ⟨["app"], "Other"⟩

def reference : Reference := ⟨tools, "run"⟩

def templates : Entries Path ModuleDef :=
  let macroClass := { ClassDef.empty tools tools with
    statics := [.method "run" (.func [] .dynamic) none] }
  [(tools, ⟨tools, [.classType macroClass]⟩), (caller, ⟨caller, []⟩)]

def runtime : Runtime NativeState Checker Host := Stage.runtime [] []

def start : EngineState NativeState Checker Host where
  engine := .new
  compilation := .new .default .new ⟨[], "Main"⟩
  world := ⟨[], ⟨.new (Registry.bootstrapTemplates ++ templates) ⟨[], [], false, none⟩, []⟩⟩

def load : Scene Unit := do
  let _ ← EngineM.loadMacro Checker.typer runtime .program reference false .null

/-- The main module loads the macro, which publishes all modules. Then the other module loads it:
the macro is remembered, so nothing is flushed. -/
def history : Scene Unit := do
  Scene.preload runtime caller
  load
  EngineM.modifyCompilation (·.mapPrimary fun scope => { scope with module := caller })
  load

def reached : EngineState NativeState Checker Host := (history.run start).2

theorem pending_reached : reached.compilation.shared.pending = [⟨caller, tools, .load⟩] := by
  decide +kernel

theorem targets_reached : reached.graph.targets.sets = [(⟨[], "Main"⟩, [tools])] := by
  decide +kernel

theorem not_reaches_caller (p : Path) : ¬reached.graph.Reaches caller p := by
  intro h
  obtain ⟨q, hedge, -⟩ := Relation.TransGen.head'_iff.mp h
  obtain ⟨set, hset, -⟩ := (Adjacency.mem_of _).mp hedge
  rw [targets_reached, List.mem_singleton] at hset
  exact absurd (Prod.mk.inj hset).1 (by decide)

theorem publishes_reached : reached.Publishes caller := by
  have hkey : caller ∈ Entries.keys reached.compilation.shared.modules := by decide +kernel
  exact List.mem_map.mp hkey

/-- The other module was noted to depend on that of the macro, and is still published when that one
is forgotten. -/
theorem caller_survives :
    reached.DependsOn caller tools ∧
    ((EngineM.invalidateModule tools).run reached).2.Publishes caller := by
  constructor
  · refine Relation.TransGen.single (Or.inr ⟨⟨caller, tools, .load⟩, ?_, rfl, rfl⟩)
    rw [pending_reached]
    exact List.mem_singleton_self _
  · refine (EngineM.publishes_invalidateModule reached tools caller).mpr ⟨publishes_reached, ?_⟩
    rintro (heq | hreaches)
    · exact absurd heq (by decide)
    · exact not_reaches_caller tools hreaches

end RememberedCall

end HaxeMacro
