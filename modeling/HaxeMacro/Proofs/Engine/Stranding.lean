import HaxeMacro.Proofs.Engine.Server
import HaxeMacro.Rehearsal.Stage

/-! # Compilations whose runtime is lost

The runtime belongs to the engine, the context for macros to one compilation. When the engine gives
up its runtime it drops the context of the compilation that it works for. All others keep theirs,
and have no runtime any more.
-/

namespace HaxeMacro

variable {ι R I G : Type}

namespace EngineState

variable {rt : Runtime R I G} {s s' : EngineState R I G} {es : List RuntimeEvent}

theorem Turn.backed (h : Turn rt s es s') (hs : s.Backed) : s'.Backed := by
  cases h with
  | quiet h =>
    unfold Backed
    rw [h.macros, h.live_iff]
    exact hs
  | create h hready =>
    obtain ⟨_, _, _, _, hruntime⟩ | ⟨-, hmacros⟩ := hready
    · exact fun _ => live_of_runtime hruntime rfl
    · simp [Backed, hmacros]
  | reuse hlive hpoisoned hruntime => exact fun _ => live_of_runtime hruntime hpoisoned
  | run hlive hpoisoned hruntime => exact fun _ => live_of_runtime hruntime hpoisoned
  | invalidate => simp [Backed, invalidated]

theorem Moved.backed (h : Moved rt s s') (hs : s.Backed) : s'.Backed := by
  obtain ⟨es, hturns⟩ := h
  induction hturns with
  | nil s => exact hs
  | cons hturn _ ih => exact ih (hturn.backed hs)

end EngineState

theorem EngineM.macros_of_enterContext {scope : Scope I} {s s' : EngineState R I G}
    (h : enterContext.run s = (.ok scope, s')) : s'.compilation.macros = some scope := by
  have hget : enterContext.run s = _ := run_bind_ok rfl
  rw [hget] at h
  cases hmacros : s.compilation.macros with
  | none =>
    rw [hmacros] at h
    cases h
  | some macros =>
    rw [hmacros] at h
    cases h
    rfl

theorem EngineM.macros_of_macroContext {t : Typer I G} {rt : Runtime R I G} {scope : Scope I}
    {s s' : EngineState R I G} (h : (macroContext t rt).run s = (.ok scope, s')) :
    s'.compilation.macros = some scope := by
  rw [run_macroContext] at h
  split at h
  · rcases hrun : (createContext t rt).run s with ⟨fault | u, s₁⟩
    · rw [run_bind_error hrun] at h
      cases h
    · rw [run_bind_ok hrun] at h
      exact macros_of_enterContext h
  · exact macros_of_enterContext h

namespace Server

/-- The compilation has a context for macros, but the engine has no runtime for it. -/
def Stranded (s : Server ι R I G) (i : ι) : Prop :=
  (s.compilations i).macros.isSome ∧ s.engine.isLive = false

theorem not_stranded_iff {s : Server ι R I G} {i : ι} : ¬s.Stranded i ↔ (s.view i).Backed := by
  unfold Stranded EngineState.Backed EngineState.Live view
  rw [not_and, Bool.not_eq_false]

theorem not_stranded_start (primary : ι → Scope I) (shared : ι → Shared) (world : World G) (i : ι) :
    ¬(start primary shared world : Server ι R I G).Stranded i := by
  simp [Stranded, start]

variable [DecidableEq ι] {t : Typer I G} {rt : Runtime R I G} {s : Server ι R I G} {i : ι}

theorem not_stranded_request (hs : ¬s.Stranded i) (r : EngineRequest) :
    ¬(s.step t rt (.request i r)).Stranded i := by
  rw [not_stranded_iff] at hs ⊢
  rw [step, view_put]
  exact (answered_operation t rt r (s.view i)).moved.backed hs

theorem stranded_compile (j : ι) (work : Scope I → Shared → World G → Scope I × Shared × World G) :
    (s.step t rt (.compile j work)).Stranded i ↔ s.Stranded i := by
  unfold Stranded step put
  by_cases h : i = j
  · subst h
    simp
  · simp [Function.update_of_ne h]

/-- A compilation is stranded by a request of another one only. As long as it is not, its own
request for a context ends with a context and a runtime, or it fails, and no request of it fails for
want of a runtime: such words are those of the runtime itself. -/
theorem stranded_by_other (hs : ¬s.Stranded i) :
    (∀ steps, (s.run t rt steps).Stranded i →
      ∃ before j r after, steps = before ++ .request j r :: after ∧ j ≠ i ∧
        ¬(s.run t rt before).Stranded i ∧
        ((s.run t rt before).step t rt (.request j r)).Stranded i) ∧
    (∀ scope state, (EngineM.macroContext t rt).run (s.view i) = (.ok scope, state) →
      state.compilation.macros = some scope ∧ state.engine.isLive) ∧
    ∀ (r : EngineRequest) pos state, (r.operation t rt).run (s.view i) =
        (.error (.error (.fatal "No live macro runtime" pos)), state) →
      rt.StopsAsMissing := by
  refine ⟨?_, fun scope state h => ?_, fun r pos state h => ?_⟩
  · -- The first step after which it is stranded is a request, and not its own.
    intro steps
    induction steps generalizing s with
    | nil => exact fun h => absurd h hs
    | cons step steps ih =>
      intro h
      by_cases hfirst : (s.step t rt step).Stranded i
      · cases step with
        | compile j work => exact absurd ((stranded_compile j work).mp hfirst) hs
        | request j r =>
          refine ⟨[], j, r, steps, rfl, ?_, hs, hfirst⟩
          rintro rfl
          exact not_stranded_request hs r hfirst
      · obtain ⟨before, j, r, after, rfl, hj, hbefore, hafter⟩ := ih hfirst h
        exact ⟨step :: before, j, r, after, rfl, hj, hbefore, hafter⟩
  · have hserved := EngineM.served_macroContext t rt (s.view i)
    rw [h] at hserved
    exact ⟨EngineM.macros_of_macroContext h, hserved.live (not_stranded_iff.mp hs) rfl⟩
  · have hanswered := answered_operation t rt r (s.view i)
    rw [h] at hanswered
    exact hanswered.words (not_stranded_iff.mp hs) _ rfl rfl

end Server

/-! ## A runtime that another compilation lost -/

namespace LostRuntime

def tools : Path := ⟨["macros"], "Tools"⟩

def good : Reference := ⟨tools, "run"⟩

def bad : Reference := ⟨tools, "crash"⟩

def templates : Entries Path ModuleDef :=
  let macroClass := { ClassDef.empty tools tools with
    statics := [.method "run" (.func [] .macroExpr) none,
      .method "crash" (.func [] .macroExpr) none] }
  [(tools, ⟨tools, [.classType macroClass]⟩)]

def runtime : Runtime NativeState Checker Host :=
  Stage.runtime [(good, [.giveExpr "1" none]), (bad, [.abort "boom"])] []

def begun : Server Bool NativeState Checker Host :=
  .start (fun _ => .new .default .new ⟨[], "Main"⟩) (fun _ => .empty)
    ⟨[], ⟨.new (Registry.bootstrapTemplates ++ templates) ⟨[], [], false, none⟩, []⟩⟩

def call (r : Reference) : EngineRequest := .invoke .program .expr r [] .null

/-- Both compilations have contexts for macros when a macro of the second one fails. -/
def steps : List (ServerStep Bool Checker Host) :=
  [.request true .context, .request false (call bad)]

def lost : Server Bool NativeState Checker Host := begun.run Checker.typer runtime steps

theorem eq_error_of_fault? {α : Type} {result : Except Fault α} {fault : Fault}
    (h : fault? result = some fault) : result = .error fault := by
  cases result with
  | ok a => cases h
  | error e => rw [Option.some.inj h]

theorem stranded_lost : lost.Stranded true := by
  unfold Server.Stranded
  decide +kernel

/-- The first compilation has lost its runtime, and its next call fails for that reason. -/
theorem call_fails_lost :
    lost.Stranded true ∧
    ((EngineM.invoke Checker.typer runtime .program .expr good [] .null).run (lost.view true)).1 =
      .error (.error (.fatal "No live macro runtime" .null)) := by
  refine ⟨stranded_lost, eq_error_of_fault? ?_⟩
  decide +kernel

theorem stranded_by_other_lost :
    ∃ before j r after, steps = before ++ .request j r :: after ∧ j ≠ true ∧
      ¬(begun.run Checker.typer runtime before).Stranded true ∧
      ((begun.run Checker.typer runtime before).step Checker.typer runtime
        (.request j r)).Stranded true :=
  (Server.stranded_by_other (Server.not_stranded_start _ _ _ true)).1 steps stranded_lost

end LostRuntime

end HaxeMacro
