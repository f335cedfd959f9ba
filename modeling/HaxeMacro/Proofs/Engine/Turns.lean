import HaxeMacro.Proofs.Engine.Runs

/-! # What happens to the runtime

Whatever the engine is asked to do, what becomes of its runtime is a sequence of turns: a runtime is
made, it is taken over for another compilation, it runs code, or it is given up.
-/

namespace HaxeMacro

variable {R I G α β : Type}

/-! ## Turns -/

inductive RuntimeTask where
  | callByPath (path : Path) (method : String) (args : List Value)
  | callFunction (f : Value) (args : List Value)
  | evalExpr (e : TypedExpr)

def Runtime.perform (rt : Runtime R I G) : RuntimeTask → Action R I G (Option Value)
  | .callByPath path method args => rt.callByPath path method args
  | .callFunction f args => rt.callFunction f args
  | .evalExpr e => rt.evalExpr e

/-- Something that happens to the runtime. -/
inductive RuntimeEvent where
  | create (generation : Nat)
  | reuse (handle : RuntimeHandle)
  | run (handle : RuntimeHandle) (task : RuntimeTask)
  | poison (generation : Nat)

namespace Engine

def Prepared (rt : Runtime R I G) (e : Engine R) : Prop :=
  ∃ session state session',
    rt.init.run (rt.create e.generation, session) = (.ok (), state, session') ∧
    e.runtime = some ⟨.new e.generation, state⟩

structure Creates (e e' : Engine R) : Prop where
  generation : e'.generation = e.generation + 1
  stats : ∃ booted invalidations, booted ≤ 1 ∧ e'.stats = { e.stats with
    runtimesCreated := e.stats.runtimesCreated + 1
    bootstraps := e.stats.bootstraps + booted
    invalidations }

def countContext (e : Engine R) : Engine R :=
  { e with stats := { e.stats with contextsCreated := e.stats.contextsCreated + 1 } }

end Engine

namespace EngineState

def booting (s : EngineState R I G) : EngineState R I G :=
  { s with engine := { s.engine with
    runtime := none
    generation := s.engine.generation + 1
    stats := { s.engine.stats with runtimesCreated := s.engine.stats.runtimesCreated + 1 } } }

/-- One thing happens to the runtime, or none. A runtime is made or taken over when a context for
macros is. -/
inductive Turn (rt : Runtime R I G) :
    EngineState R I G → List RuntimeEvent → EngineState R I G → Prop
  | quiet {s s'} (h : s.Quiet s') : Turn rt s [] s'
  | create {s s'} (h : s.engine.countContext.Creates s'.engine)
      (hready : s'.engine.Prepared rt ∨ s'.engine.runtime = none ∧ s'.compilation.macros = none) :
      Turn rt s [.create s'.engine.generation] s'
  | reuse {s s'} {live : LiveRuntime R} {session : Session I G}
      (hlive : s.engine.runtime = some live) (hpoisoned : live.handle.poisoned = false)
      (hruntime : s'.engine.runtime =
        some { live with state := (rt.reuse.run (live.state, session)).2.1 })
      (hgeneration : s'.engine.generation = s.engine.generation)
      (hstats : s'.engine.stats = { s.engine.countContext.stats with
        reuses := s.engine.stats.reuses + 1 }) :
      Turn rt s [.reuse live.handle] s'
  | run {s s'} {live : LiveRuntime R} {session : Session I G} {task : RuntimeTask}
      (hlive : s.engine.runtime = some live) (hpoisoned : live.handle.poisoned = false)
      (hruntime : s'.engine.runtime =
        some { live with state := ((rt.perform task).run (live.state, session)).2.1 })
      (hgeneration : s'.engine.generation = s.engine.generation)
      (hstats : s'.engine.stats = { s.engine.stats with calls := s.engine.stats.calls + 1 }) :
      Turn rt s [.run live.handle task] s'
  | invalidate (s) :
      Turn rt s (s.engine.runtime.toList.map fun live => .poison live.handle.generation)
        s.invalidated

/-- Turns one after the other, with all that happens. -/
inductive Turns (rt : Runtime R I G) :
    EngineState R I G → List RuntimeEvent → EngineState R I G → Prop
  | nil (s) : Turns rt s [] s
  | cons {a b c es es'} (h : Turn rt a es b) (h' : Turns rt b es' c) : Turns rt a (es ++ es') c

theorem Turns.single {rt : Runtime R I G} {s s' : EngineState R I G} {es : List RuntimeEvent}
    (h : Turn rt s es s') : Turns rt s es s' := by
  have hturns := Turns.cons h (.nil s')
  rwa [List.append_nil] at hturns

theorem Turns.append {rt : Runtime R I G} {a b c : EngineState R I G} {es es' : List RuntimeEvent}
    (h : Turns rt a es b) (h' : Turns rt b es' c) : Turns rt a (es ++ es') c := by
  induction h with
  | nil s => exact h'
  | cons hturn _ ih =>
    rw [List.append_assoc]
    exact .cons hturn (ih h')

def Moved (rt : Runtime R I G) (s s' : EngineState R I G) : Prop := ∃ es, Turns rt s es s'

theorem Turn.moved {rt : Runtime R I G} {s s' : EngineState R I G} {es : List RuntimeEvent}
    (h : Turn rt s es s') : Moved rt s s' := ⟨es, .single h⟩

theorem Moved.trans {rt : Runtime R I G} {a b c : EngineState R I G} (h : Moved rt a b)
    (h' : Moved rt b c) : Moved rt a c := by
  obtain ⟨es, h⟩ := h
  obtain ⟨es', h'⟩ := h'
  exact ⟨es ++ es', h.append h'⟩

end EngineState

open EngineState (Moved)

namespace EngineM

variable (t : Typer I G) (rt : Runtime R I G)

/-! ## Making a runtime -/

/-- The engine has no runtime, and nothing has changed but two counts. -/
structure Boots (booted : Nat) (s s' : EngineState R I G) : Prop where
  runtime : s'.engine.runtime = none
  generation : s'.engine.generation = s.engine.generation
  stats : ∃ invalidations, s'.engine.stats = { s.engine.stats with
    bootstraps := s.engine.stats.bootstraps + booted
    invalidations }

theorem boots_bootstrap {s : EngineState R I G} (hnone : s.engine.runtime = none) :
    (∃ booted ≤ 1, Boots booted s ((bootstrap t).run s).2) ∧
      ∀ f ∈ fault? ((bootstrap t).run s).1, ¬f.NoRuntime := by
  let load : EngineM R I G Unit := bootstrapModules.forM fun path => do
    let _ ← orFail (← checkMacros (t.loadModule path .null))
  have hload : Still load := Leads.forM chain_quiet _ fun path =>
    (still_checkMacros _).bind fun loaded => (still_orFail loaded).bind fun _ => still_pure _
  have hquiet := hload s
  rcases hrun : load.run s with ⟨fault | u, s₁⟩ <;> rw [hrun] at hquiet
  · have hend : (bootstrap t).run s = (.error fault, s₁) := run_bind_error hrun
    rw [hend]
    exact ⟨⟨0, by decide, hquiet.runtime.trans hnone, hquiet.generation, _, hquiet.stats⟩,
      hquiet.served⟩
  -- The bootstrap is counted before its flush, which may still fail.
  have hstats : s₁.engine.stats = s.engine.stats := hquiet.stats
  let counted : EngineState R I G := { s₁ with engine := { s₁.engine with
    stats := { s₁.engine.stats with bootstraps := s₁.engine.stats.bootstraps + 1 } } }
  have hnext : (bootstrap t).run s = (do let _ ← flush t : EngineM R I G Unit).run counted :=
    (run_bind_ok hrun).trans (run_bind_ok rfl)
  rw [hnext]
  obtain ⟨n, s', hflush, hquiet'⟩ | ⟨fault, s', hflush, hquiet'⟩ := flush_cases t counted
  · rw [run_bind_ok hflush]
    refine ⟨⟨1, Nat.le_refl 1, hquiet'.runtime.trans (hquiet.runtime.trans hnone),
      hquiet'.generation.trans hquiet.generation, s.engine.stats.invalidations, ?_⟩, nofun⟩
    refine hquiet'.stats.trans ?_
    simp only [counted, hstats]
  · rw [run_bind_error hflush]
    have hruntime : s'.engine.runtime = none := hquiet'.runtime.trans (hquiet.runtime.trans hnone)
    refine ⟨⟨1, Nat.le_refl 1, ?_, hquiet'.generation.trans hquiet.generation,
      s'.engine.stats.invalidations + 1, ?_⟩, hquiet'.served⟩
    · simp [EngineState.invalidated, Engine.invalidate, hruntime]
    · simp only [EngineState.invalidated, Engine.invalidate, hquiet'.stats, counted, hstats]

def initFault : RuntimeFailure → Fault
  | .stopped stop => .stopped stop
  | f => .error (.fatal ("Macro runtime initialization failed: " ++ f.text) .null)

theorem not_noRuntime_initFault (f : RuntimeFailure) : ¬(initFault f).NoRuntime := by
  have hwords (text : String) : ¬(Fault.error
      (.fatal ("Macro runtime initialization failed: " ++ text) .null)).NoRuntime :=
    Fault.not_noRuntime_of_start ⟨'M', by decide, by decide⟩ text .null
  cases f with
  | stopped stop => exact id
  | _ => exact hwords _

/-- The part of `createRuntime` after the bootstrap. -/
def initRuntime (generation : Nat) : EngineM R I G Unit := do
  let s ← get
  let (result, state, session) :=
    rt.init.run (rt.create generation, ⟨s.compilation, s.world, .null, "<init>"⟩)
  set { s with compilation := session.compilation, world := session.world }
  match result with
  | .ok () => modifyEngine fun e => { e with runtime := some ⟨.new generation, state⟩ }
  | .error (.stopped stop) => throw (.stopped stop)
  | .error f => fail (.fatal ("Macro runtime initialization failed: " ++ f.text) .null)

theorem initRuntime_cases (generation : Nat) (s : EngineState R I G) :
    (∃ f s', (initRuntime rt generation).run s = (.error (initFault f), s') ∧
      s'.engine = s.engine) ∨
    ∃ s' session state session', (initRuntime rt generation).run s = (.ok (), s') ∧
      rt.init.run (rt.create generation, session) = (.ok (), state, session') ∧
      s'.engine = { s.engine with runtime := some ⟨.new generation, state⟩ } := by
  have hnext : (initRuntime rt generation).run s = _ := (run_bind_ok rfl).trans rfl
  rcases hinit : rt.init.run (rt.create generation,
    ⟨s.compilation, s.world, .null, "<init>"⟩) with ⟨f | ⟨⟩, state, session⟩ <;>
    rw [hinit] at hnext
  · refine .inl ⟨f, { s with compilation := session.compilation, world := session.world }, ?_, rfl⟩
    cases f <;> exact hnext
  · exact .inr ⟨_, _, state, session, hnext, hinit, rfl⟩

theorem run_createRuntime (s : EngineState R I G) :
    (createRuntime t rt).run s =
      (do bootstrap t; initRuntime rt (s.engine.generation + 1)).run s.booting := rfl

theorem creates_createRuntime (s : EngineState R I G) :
    ∃ result s', (createRuntime t rt).run s = (result, s') ∧ s.engine.Creates s'.engine ∧
      ((∃ fault, result = .error fault ∧ ¬fault.NoRuntime) ∧ s'.engine.runtime = none ∨
        result = .ok () ∧ s'.engine.Prepared rt) := by
  obtain ⟨⟨booted, hbooted, hboots⟩, hserved⟩ := boots_bootstrap t (s := s.booting) rfl
  rw [run_createRuntime]
  rcases hrun : (bootstrap t).run s.booting with ⟨fault | u, s₁⟩ <;> rw [hrun] at hboots hserved
  · obtain ⟨invalidations, hstats⟩ := hboots.stats
    exact ⟨.error fault, s₁, run_bind_error hrun,
      ⟨hboots.generation, booted, invalidations, hbooted, hstats⟩,
      .inl ⟨⟨fault, rfl, hserved fault rfl⟩, hboots.runtime⟩⟩
  obtain ⟨invalidations, hstats⟩ := hboots.stats
  have hcreates : s.engine.Creates s₁.engine :=
    ⟨hboots.generation, booted, invalidations, hbooted, hstats⟩
  obtain ⟨f, s', hinit, hengine⟩ | ⟨s', session, state, session', hinit, hready, hengine⟩ :=
    initRuntime_cases rt (s.engine.generation + 1) s₁
  · refine ⟨.error (initFault f), s', (run_bind_ok hrun).trans hinit, ?_,
      .inl ⟨⟨initFault f, rfl, not_noRuntime_initFault f⟩, ?_⟩⟩
    · rw [hengine]
      exact hcreates
    · rw [hengine]
      exact hboots.runtime
  · refine ⟨.ok (), s', (run_bind_ok hrun).trans hinit, ?_, .inr ⟨rfl, session, state, session', ?_⟩⟩
    · rw [hengine]
      exact ⟨hcreates.generation, hcreates.stats⟩
    · have hgeneration : s'.engine.generation = s.engine.generation + 1 := by
        rw [hengine]
        exact hcreates.generation
      rw [hgeneration]
      exact ⟨hready, by rw [hengine]⟩

end EngineM

end HaxeMacro
