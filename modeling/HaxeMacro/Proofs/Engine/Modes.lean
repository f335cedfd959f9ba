import HaxeMacro.Proofs.Engine.Forgetting
import HaxeMacro.Proofs.Evaluator.Sessions
import HaxeMacro.Rehearsal.Stage

/-! # Modes that are given back

Operations select macro code, mark the compilation as flushing, enter macros and answer queries.
However they end, they leave all that as they found it.
-/

namespace HaxeMacro

variable {ι R I G : Type}

/-! ## Modes -/

namespace Compilation

variable (mode : I → Bool)

/-- Whether queries are answered in the context for macros: what its settings say, and what its type
checker does. -/
def macroModes (c : Compilation I) : Option (Bool × Bool) :=
  c.macros.map fun macros => (macros.config.display, mode macros.typer)

structure SameModes (c c' : Compilation I) : Prop where
  flushing : c'.shared.flushing = c.shared.flushing
  active : c'.shared.reporter.active = c.shared.reporter.active
  macroModes : c'.macroModes mode = c.macroModes mode

end Compilation

/-- `mode` tells whether an instance of the type checker answers queries, and only setting it makes
a difference to that. -/
structure Typer.Shows (t : Typer I G) (mode : I → Bool) : Prop where
  setDisplay : ∀ display typer world, mode ((t.setDisplay display).run (typer, world)).2.1 = display
  asks : ∀ {α : Type} {op : Checking I G α}, t.Asks op →
    ∀ typer world, mode (op.run (typer, world)).2.1 = mode typer
  takeProduced : ∀ typer world, mode (t.takeProduced.run (typer, world)).2.1 = mode typer

def Runtime.KeepsModes (rt : Runtime R I G) (mode : I → Bool) : Prop :=
  ∀ {session session'}, rt.Acts session session' →
    session.compilation.SameModes mode session'.compilation

namespace EngineState

def Synced (mode : I → Bool) (s : EngineState R I G) : Prop :=
  ∀ modes ∈ s.compilation.macroModes mode, modes.1 = modes.2

structure GivesBack (mode : I → Bool) (s s' : EngineState R I G) : Prop where
  flushing : s'.compilation.shared.flushing = s.compilation.shared.flushing
  active : s'.compilation.shared.reporter.active = s.compilation.shared.reporter.active
  synced : s.Synced mode → s'.Synced mode

variable {mode : I → Bool} {s s' : EngineState R I G}

theorem givesBack_of_same (h : s.compilation.SameModes mode s'.compilation) : s.GivesBack mode s' :=
  ⟨h.flushing, h.active, fun hs => by rwa [Synced, h.macroModes]⟩

theorem GivesBack.trans {a b c : EngineState R I G} (h : a.GivesBack mode b)
    (h' : b.GivesBack mode c) : a.GivesBack mode c :=
  ⟨h'.flushing.trans h.flushing, h'.active.trans h.active, fun ha => h'.synced (h.synced ha)⟩

end EngineState

namespace EngineM

variable {t : Typer I G} {rt : Runtime R I G} {mode : I → Bool}

theorem macroModes_of_eq {s : EngineState R I G} {macros : Scope I}
    (h : s.compilation.macros = some macros) :
    s.compilation.macroModes mode = some (macros.config.display, mode macros.typer) := by
  rw [Compilation.macroModes, h]
  rfl

theorem sameModes_ask (ht : t.Shows mode) {α : Type} {op : Checking I G α} (hop : t.Asks op)
    {s : EngineState R I G} {macros : Scope I} (h : s.compilation.macros = some macros) :
    s.compilation.SameModes mode
      (s.withMacros (macros.check op s.world).2.1 (macros.check op s.world).2.2).compilation := by
  refine ⟨rfl, rfl, ?_⟩
  rw [macroModes_of_eq h, macroModes_of_eq rfl]
  exact congrArg (fun shown => some (macros.config.display, shown)) (ht.asks hop _ _)

theorem synced_setDisplay (ht : t.Shows mode) (display : Bool) {s : EngineState R I G}
    (macros : Scope I) :
    (s.withMacros (macros.setDisplay t display s.world).1
      (macros.setDisplay t display s.world).2).compilation.macroModes mode =
        some (display, display) := by
  rw [macroModes_of_eq rfl]
  exact congrArg (fun shown => some (display, shown)) (ht.setDisplay _ _ _)

theorem steady_givesBack (ht : t.Shows mode) (hrt : rt.KeepsModes mode) :
    Steady t rt (fun s _ s' => s.GivesBack mode s') where
  stay := EngineState.givesBack_of_same ⟨rfl, rfl, rfl⟩
  trans := .trans
  ask hop hmacros := EngineState.givesBack_of_same (sameModes_ask ht hop hmacros)
  display := by
    intro s macros display hmacros
    refine ⟨rfl, rfl, fun _ modes hmodes => ?_⟩
    rw [synced_setDisplay ht] at hmodes
    cases hmodes
    rfl
  move h := by
    cases h with
    | takeProduced hmacros =>
      refine EngineState.givesBack_of_same ⟨rfl, rfl, ?_⟩
      rw [macroModes_of_eq hmacros, macroModes_of_eq rfl]
      exact congrArg (fun shown => some (_, shown)) (ht.takeProduced _ _)
    | enter hmacros =>
      refine EngineState.givesBack_of_same ⟨rfl, rfl, ?_⟩
      rw [macroModes_of_eq hmacros, macroModes_of_eq rfl]
    | fork =>
      refine ⟨rfl, rfl, fun _ modes hmodes => ?_⟩
      rw [macroModes_of_eq rfl] at hmodes
      cases hmodes
      exact (ht.setDisplay _ _ _).symm
    | prepare h => exact EngineState.givesBack_of_same (hrt (.prepare h))
    | _ => exact EngineState.givesBack_of_same ⟨rfl, rfl, rfl⟩
  flushed hflushing h := ⟨hflushing.symm, h.active, h.synced⟩
  invalidated h := ⟨h.flushing, h.active, fun _ => nofun⟩
  dropped h := ⟨h.flushing, h.active, fun _ => nofun⟩

theorem driving_givesBack (ht : t.Shows mode) (hrt : rt.KeepsModes mode) :
    Driving t rt (fun s _ s' => s.GivesBack mode s') where
  toSteady := steady_givesBack ht hrt
  select _ _ h := ⟨h.flushing, h.active, h.synced⟩
  load := (steady_givesBack ht hrt).loadMacro
    (fun _ _ _ => EngineState.givesBack_of_same ⟨rfl, rfl, rfl⟩)
    (fun _ _ _ _ => EngineState.givesBack_of_same ⟨rfl, rfl, rfl⟩)
    (fun _ _ h => ⟨h.flushing, h.active, h.synced⟩)
  call := by
    intro s live name pos task _ _
    have h := hrt (.perform task live.state (beginCall s name pos).2)
    refine EngineState.givesBack_of_same ⟨h.flushing, ?_, h.macroModes⟩
    exact congrArg List.tail h.active

/-! ## Resolving -/

theorem passing_sameModes : Passing fun (s : EngineState R I G) _ s' =>
    s.Synced mode → s.compilation.SameModes mode s'.compilation where
  stay _ := ⟨rfl, rfl, rfl⟩
  trans h h' hs := by
    have hfirst := h hs
    have hlast := h' (by rwa [EngineState.Synced, hfirst.macroModes])
    exact ⟨hlast.flushing.trans hfirst.flushing, hlast.active.trans hfirst.active,
      hlast.macroModes.trans hfirst.macroModes⟩

theorem run_setMacroDisplay {s : EngineState R I G} {macros : Scope I}
    (h : s.compilation.macros = some macros) (display : Bool) :
    (setMacroDisplay t display).run s =
      (.ok (), s.withMacros (macros.setDisplay t display s.world).1
        (macros.setDisplay t display s.world).2) := by
  refine (run_bind_ok rfl).trans ?_
  simp only [h]
  rfl

theorem sameModes_checkMacros (ht : t.Shows mode) {α : Type} {op : Checking I G α}
    (hop : t.Asks op) : Leads (fun (s : EngineState R I G) _ s' =>
      s.Synced mode → s.compilation.SameModes mode s'.compilation) (checkMacros op) := by
  refine Leads.get fun s _ => ?_
  cases hmacros : s.compilation.macros with
  | none => exact ⟨rfl, rfl, rfl⟩
  | some macros => exact sameModes_ask ht hop hmacros

/-- The module of a macro is loaded in another mode, but what was said before is said again, whether
the module could be loaded or not. -/
theorem sameModes_loadMacroModule (ht : t.Shows mode) (r : Reference) (display : Bool)
    (pos : Position) : Leads (fun (s : EngineState R I G) _ s' =>
      s.Synced mode → s.compilation.SameModes mode s'.compilation)
      (loadMacroModule t r display pos) := by
  unfold loadMacroModule
  split
  · refine Leads.get fun s hs => ?_
    cases hmacros : s.compilation.macros with
    | none =>
      have hfail : (setMacroDisplay t true).run s = (.error (.error noMacroContext), s) := by
        refine (run_bind_ok rfl).trans ?_
        simp only [hmacros]
        rfl
      rw [run_bind_error hfail]
      exact ⟨rfl, rfl, rfl⟩
    | some macros =>
      have hsynced := hs _ (macroModes_of_eq hmacros)
      rw [run_bind_ok (run_setMacroDisplay hmacros true),
        run_bind_ok (run_checkMacros rfl rfl), run_bind_ok (run_setMacroDisplay rfl _)]
      refine ⟨rfl, rfl, (synced_setDisplay ht _ _).trans ?_⟩
      rw [macroModes_of_eq hmacros, Option.any_some]
      exact congrArg (fun shown => some (macros.config.display, shown)) hsynced
  · exact sameModes_checkMacros ht (.loadModule r.module pos)

theorem sameModes_resolve (ht : t.Shows mode) (r : Reference) (display : Bool) (pos : Position) :
    Leads (fun (s : EngineState R I G) _ s' =>
      s.Synced mode → s.compilation.SameModes mode s'.compilation) (resolve t r display pos) :=
  passing_sameModes.resolve (fun _ _ _ => ⟨rfl, rfl, rfl⟩) (fun _ _ _ _ => ⟨rfl, rfl, rfl⟩)
    (passing_sameModes.findSignature (sameModes_loadMacroModule ht r display pos)
      (sameModes_checkMacros ht .finalize))

theorem givesBack_operation (ht : t.Shows mode) (hrt : rt.KeepsModes mode) (r : EngineRequest)
    (s : EngineState R I G) : s.GivesBack mode ((r.operation t rt).run s).2 := by
  refine (driving_givesBack ht hrt).operation r (fun hmanages => ?_) s
  cases r with
  | invalidate => exact fun s => ⟨rfl, rfl, fun _ => nofun⟩
  | invalidateModule module =>
    intro s
    have hrun : (EngineRequest.operation t rt (.invalidateModule module)).run s = _ :=
      run_bind_ok (run_invalidateModule s module)
    rw [hrun]
    exact EngineState.givesBack_of_same ⟨rfl, rfl, rfl⟩
  | resetCache | select => exact fun s => EngineState.givesBack_of_same ⟨rfl, rfl, rfl⟩
  | _ => exact hmanages.elim

/-! ## Selections -/

theorem selection_invoke (side : Side) (callMode : CallMode) (r : Reference) (args : List Expr)
    (pos : Position) (s : EngineState R I G) :
    ((invoke t rt side callMode r args pos).run s).2.engine.selection = s.engine.selection := by
  cases side <;> rfl

theorem selection_runInit (text : String) (s : EngineState R I G) :
    ((runInit t rt text).run s).2.engine.selection = s.engine.selection := by
  unfold runInit
  cases Expr.parse text .null with
  | error e => rfl
  | ok e =>
    dsimp only
    cases e.initCall with
    | error e => rfl
    | ok call =>
      rw [ofResult, pure_bind]
      cases call.2.mapM Expr.constant <;> rfl

end EngineM

namespace Server

variable {t : Typer I G} {rt : Runtime R I G} {mode : I → Bool}

theorem synced_start (primary : ι → Scope I) (shared : ι → Shared) (world : World G) (i : ι) :
    ((start primary shared world : Server ι R I G).view i).Synced mode := by
  intro modes hmodes
  cases hmodes

variable [DecidableEq ι]

theorem synced_step (ht : t.Shows mode) (hrt : rt.KeepsModes mode) {s : Server ι R I G}
    (hs : ∀ i, (s.view i).Synced mode) (step : ServerStep ι I G) (i : ι) :
    ((s.step t rt step).view i).Synced mode := by
  have hput (j : ι) {state : EngineState R I G} (hstate : state.Synced mode) :
      ((s.put j state).view i).Synced mode := by
    by_cases h : i = j
    · subst h
      rwa [view_put]
    · have hother : (s.put j state).compilations i = s.compilations i :=
        Function.update_of_ne h _ _
      unfold EngineState.Synced view
      rw [hother]
      exact hs i
  cases step with
  | request j r => exact hput j ((EngineM.givesBack_operation ht hrt r _).synced (hs j))
  | compile j work => exact hput j (hs j)

theorem synced_run (ht : t.Shows mode) (hrt : rt.KeepsModes mode) {s : Server ι R I G}
    (hs : ∀ i, (s.view i).Synced mode) (steps : List (ServerStep ι I G)) (i : ι) :
    ((s.run t rt steps).view i).Synced mode := by
  induction steps generalizing s with
  | nil => exact hs i
  | cons step steps ih => exact ih (synced_step ht hrt hs step)

end Server

namespace EngineM

variable {t : Typer I G} {rt : Runtime R I G} {mode : I → Bool}

/-- Whatever is asked for and however it ends: what was selected before is selected again, the
compilation is marked as before, and queries are answered as before. While the runtime runs, macro
code is selected and the innermost running macro is the one that is called. -/
theorem modes_given_back (ht : t.Shows mode) (hrt : rt.KeepsModes mode) :
    (∀ s : EngineState R I G,
      (∀ side callMode r args pos,
        ((invoke t rt side callMode r args pos).run s).2.engine.selection = s.engine.selection) ∧
      (∀ side r display pos,
        ((loadMacro t rt side r display pos).run s).2.engine.selection = s.engine.selection) ∧
      (∀ text, ((runInit t rt text).run s).2.engine.selection = s.engine.selection) ∧
      (∀ r : EngineRequest, s.GivesBack mode ((r.operation t rt).run s).2) ∧
      (s.Synced mode → ∀ r display pos,
        s.compilation.SameModes mode ((resolve t r display pos).run s).2.compilation) ∧
      ∀ (α : Type) name pos (action : Action R I G α) live,
        s.engine.runtime = some live → live.handle.poisoned = false →
        ∃ during session, beginCall s name pos = (during, session) ∧
          during.selection = .macros ∧
          session.compilation.shared.reporter.active =
            name :: s.compilation.shared.reporter.active ∧
          (withRuntime name pos action).run s =
            (concludeCall s.compilation.primary.config.macros.dump name pos
              (action.run (live.state, session)).1).run
                (endCall s during live (action.run (live.state, session)).2.1
                  (action.run (live.state, session)).2.2)) ∧
    ∀ (ι : Type) [DecidableEq ι] primary shared world (steps : List (ServerStep ι I G)) i,
      (((Server.start primary shared world : Server ι R I G).run t rt steps).view i).Synced
        mode := by
  refine ⟨fun s => ⟨fun side callMode r args pos => selection_invoke side callMode r args pos s,
    fun _ _ _ _ => rfl, fun text => selection_runInit text s,
    fun r => givesBack_operation ht hrt r s,
    fun hs r display pos => sameModes_resolve ht r display pos s hs, ?_⟩, ?_⟩
  · intro α name pos action live hlive hhealthy
    -- The state and the session that the call begins with say what holds during it.
    exact ⟨_, _, rfl, rfl, rfl, run_withRuntime hlive hhealthy name pos action⟩
  · intro ι _ primary shared world steps i
    exact Server.synced_run ht hrt (Server.synced_start primary shared world) steps i

end EngineM

/-! ## A type checker that shows its mode -/

def Checking.beside {J α : Type} (op : Checking I G α) : Checking (I × J) G α :=
  fun ((typer, other), world) =>
    let (result, typer, world) := op.run (typer, world)
    (result, (typer, other), world)

namespace Typer

/-- The type checker together with the mode that it was told last. -/
def showing (t : Typer I G) : Typer (I × Bool) G where
  fork instances := (t.fork instances.1, instances.2)
  loadModule path pos := (t.loadModule path pos).beside
  loadComplexType type pos := (t.loadComplexType type pos).beside
  unify actual expected := (t.unify actual expected).beside
  typeExpr e expected := (t.typeExpr e expected).beside
  matchArgs args params pos := (t.matchArgs args params pos).beside
  freshType := fun ((typer, display), world) =>
    let (type, typer, world) := t.freshType.run (typer, world)
    (type, (typer, display), world)
  defineModule path definitions pos := (t.defineModule path definitions pos).beside
  finalize := t.finalize.beside
  takeProduced := fun ((typer, display), world) =>
    let (ids, typer, world) := t.takeProduced.run (typer, world)
    (ids, (typer, display), world)
  setDisplay display := fun ((typer, _), world) =>
    let (_, typer, world) := (t.setDisplay display).run (typer, world)
    ((), (typer, display), world)

theorem shows_showing (t : Typer I G) : t.showing.Shows Prod.snd where
  setDisplay _ _ _ := rfl
  asks hop _ _ := by cases hop <;> rfl
  takeProduced _ _ := rfl

end Typer

theorem Session.chained_sameModes (mode : I → Bool) : Session.Chained
    fun a b : Session I G => a.compilation.SameModes mode b.compilation where
  refl _ := ⟨rfl, rfl, rfl⟩
  trans h h' := ⟨h'.flushing.trans h.flushing, h'.active.trans h.active,
    h'.macroModes.trans h.macroModes⟩

/-- The native runtime changes no mode unless a method that is given from outside does. -/
theorem NativeRuntime.keepsModes {natives : Natives I G} {mode : I → Bool}
    (hnatives : ∀ p ∈ natives, p.2.Keeps fun a b => a.compilation.SameModes mode b.compilation)
    (failures : InitFailures) (steps : Nat) : (make natives failures steps).KeepsModes mode :=
  acts_make (Session.chained_sameModes mode) hnatives

namespace FailedQuery

def missing : Reference := ⟨⟨["macros"], "Missing"⟩, "run"⟩

def runtime : Runtime NativeState (Checker × Bool) Host :=
  NativeRuntime.make [] [] Stage.evaluationSteps

def ready : Server Unit NativeState (Checker × Bool) Host :=
  (Server.start (fun _ => .new .default (.new, false) ⟨[], "Main"⟩) (fun _ => .empty)
    ⟨[], ⟨.new Registry.bootstrapTemplates ⟨[], [], false, none⟩, []⟩⟩).run
      Checker.typer.showing runtime [.request () .context]

def asked : Except Fault Binding × EngineState NativeState (Checker × Bool) Host :=
  (EngineM.resolve Checker.typer.showing missing true .null).run (ready.view ())

theorem sameModes_asked :
    (ready.view ()).compilation.macros.isSome ∧ (fault? asked.1).isSome ∧
      (ready.view ()).compilation.SameModes Prod.snd asked.2.compilation := by
  refine ⟨by decide +kernel, by decide +kernel, ?_⟩
  have hruntime : runtime.KeepsModes Prod.snd :=
    NativeRuntime.keepsModes (fun _ h => absurd h List.not_mem_nil) [] Stage.evaluationSteps
  obtain ⟨hgiven, hsynced⟩ :=
    EngineM.modes_given_back (Typer.shows_showing Checker.typer) hruntime
  obtain ⟨-, -, -, -, hresolve, -⟩ := hgiven (ready.view ())
  exact hresolve (hsynced Unit _ _ _ _ ()) missing true .null

end FailedQuery

end HaxeMacro
