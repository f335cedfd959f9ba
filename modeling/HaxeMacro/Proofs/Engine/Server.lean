import HaxeMacro.Proofs.Engine.Served
import Mathlib.Logic.Function.Basic

/-! # A compilation server

One engine serves many compilations. Between the requests of a compilation others may make theirs,
and the compiler goes on with the programs.
-/

namespace HaxeMacro

variable {ι R I G : Type}

inductive EngineRequest where
  | context
  | loadMacro (side : Side) (r : Reference) (display : Bool) (pos : Position)
  | invoke (side : Side) (mode : CallMode) (r : Reference) (args : List Expr) (pos : Position)
  | runInit (text : String)
  | runHooks (kind : HookKind) (args : List Value)
  | flush
  | invalidate
  | invalidateModule (module : Path)
  | restoreModule (module : Path)
  | resetCache
  | select (selection : Selection)

def EngineRequest.operation (t : Typer I G) (rt : Runtime R I G) :
    EngineRequest → EngineM R I G Unit
  | context => do let _ ← EngineM.macroContext t rt
  | loadMacro side r display pos => do let _ ← EngineM.loadMacro t rt side r display pos
  | invoke side mode r args pos => do let _ ← EngineM.invoke t rt side mode r args pos
  | runInit text => do let _ ← EngineM.runInit t rt text
  | runHooks kind args => do let _ ← EngineM.runHooks t rt kind args
  | flush => do let _ ← EngineM.flush t
  | invalidate => EngineM.invalidate
  | invalidateModule module => do let _ ← EngineM.invalidateModule module
  | restoreModule module => do let _ ← EngineM.restoreModule module
  | resetCache => EngineM.modifyEngine .resetCache
  | select selection => EngineM.modifyEngine fun e => { e with selection }

structure Server (ι R I G : Type) where
  engine : Engine R
  compilations : ι → Compilation I
  world : World G

/-- One thing that happens on a server. -/
inductive ServerStep (ι I G : Type) where
  | request (i : ι) (r : EngineRequest)
  /-- The compiler works on the program of a compilation. -/
  | compile (i : ι) (work : Scope I → Shared → World G → Scope I × Shared × World G)

namespace Server

def start (primary : ι → Scope I) (shared : ι → Shared) (world : World G) : Server ι R I G :=
  ⟨.new, fun i => ⟨primary i, none, shared i⟩, world⟩

def view (s : Server ι R I G) (i : ι) : EngineState R I G := ⟨s.engine, s.compilations i, s.world⟩

variable [DecidableEq ι]

def put (s : Server ι R I G) (i : ι) (state : EngineState R I G) : Server ι R I G :=
  ⟨state.engine, Function.update s.compilations i state.compilation, state.world⟩

def step (t : Typer I G) (rt : Runtime R I G) (s : Server ι R I G) :
    ServerStep ι I G → Server ι R I G
  | .request i r => s.put i ((r.operation t rt).run (s.view i)).2
  | .compile i work =>
    let c := s.compilations i
    let (primary, shared, world) := work c.primary c.shared s.world
    s.put i ⟨s.engine, { c with primary, shared }, world⟩

def run (t : Typer I G) (rt : Runtime R I G) (s : Server ι R I G)
    (steps : List (ServerStep ι I G)) : Server ι R I G :=
  steps.foldl (step t rt) s

@[simp]
theorem view_put (s : Server ι R I G) (i : ι) (state : EngineState R I G) :
    (s.put i state).view i = state := by
  simp [put, view]

@[simp]
theorem put_view (s : Server ι R I G) (i : ι) : s.put i (s.view i) = s := by
  simp [put, view]

@[simp]
theorem put_put (s : Server ι R I G) (i : ι) (state state' : EngineState R I G) :
    (s.put i state).put i state' = s.put i state' := by
  simp [put]

/-! ## Histories -/

/-- What happens to the runtime of a server, turn by turn. -/
inductive History (rt : Runtime R I G) :
    Server ι R I G → List RuntimeEvent → Server ι R I G → Prop
  | nil (s) : History rt s [] s
  | cons {s s' i es es' state} (h : EngineState.Turn rt (s.view i) es state)
      (h' : History rt (s.put i state) es' s') : History rt s (es ++ es') s'

variable {t : Typer I G} {rt : Runtime R I G}

theorem History.append {a b c : Server ι R I G} {es es' : List RuntimeEvent}
    (h : History rt a es b) (h' : History rt b es' c) : History rt a (es ++ es') c := by
  induction h with
  | nil s => exact h'
  | cons hturn _ ih =>
    rw [List.append_assoc]
    exact .cons hturn (ih h')

theorem history_of_turns {state state' : EngineState R I G} {es : List RuntimeEvent}
    (h : EngineState.Turns rt state es state') (s : Server ι R I G) (i : ι) :
    History rt (s.put i state) es (s.put i state') := by
  induction h with
  | nil state => exact .nil _
  | @cons state next _ es _ hturn _ ih =>
    have hview : EngineState.Turn rt ((s.put i state).view i) es next := by
      rw [view_put]
      exact hturn
    refine .cons hview ?_
    rw [put_put]
    exact ih

theorem answered_operation (t : Typer I G) (rt : Runtime R I G) (r : EngineRequest) :
    EngineM.Leads (EngineState.Answered rt) (r.operation t rt) := by
  cases r with
  | context => exact (EngineM.answered_of_served rt (EngineM.served_macroContext t rt)).ignore rt
  | loadMacro side r display pos =>
    exact (EngineM.answered_loadMacro t rt side r display pos).ignore rt
  | invoke side mode r args pos =>
    exact (EngineM.answered_invoke t rt side mode r args pos).ignore rt
  | runInit text =>
    exact (EngineM.answered_of_served rt (EngineM.served_runInit t rt text)).ignore rt
  | runHooks kind args => exact (EngineM.answered_runHooks t rt kind args).ignore rt
  | flush => exact (EngineM.answered_flush t rt).ignore rt
  | invalidate => exact EngineM.answered_invalidate rt
  | invalidateModule module =>
    exact (EngineM.answered_of_still rt (EngineM.still_invalidateModule module)).ignore rt
  | restoreModule module =>
    exact (EngineM.answered_of_still rt (EngineM.still_restoreModule module)).ignore rt
  | resetCache | select selection =>
    refine EngineM.answered_of_still rt (EngineM.still_modifyEngine ?runtime ?generation ?stats)
    case runtime | generation | stats => exact fun _ => rfl

theorem history_of_moved {s : Server ι R I G} {i : ι} {state : EngineState R I G}
    (h : EngineState.Moved rt (s.view i) state) : ∃ es, History rt s es (s.put i state) := by
  obtain ⟨es, hturns⟩ := h
  have hhistory := history_of_turns hturns s i
  rw [put_view] at hhistory
  exact ⟨es, hhistory⟩

variable (t rt)

theorem history_step (s : Server ι R I G) (step : ServerStep ι I G) :
    ∃ es, History rt s es (s.step t rt step) := by
  cases step with
  | request i r => exact history_of_moved (answered_operation t rt r (s.view i)).moved
  | compile i work =>
    exact history_of_moved (EngineState.Turn.moved (.quiet ⟨rfl, rfl, rfl, rfl⟩))

theorem history_run (s : Server ι R I G) (steps : List (ServerStep ι I G)) :
    ∃ es, History rt s es (s.run t rt steps) := by
  induction steps generalizing s with
  | nil => exact ⟨[], .nil s⟩
  | cons step steps ih =>
    obtain ⟨es, h⟩ := history_step t rt s step
    obtain ⟨es', h'⟩ := ih (s.step t rt step)
    exact ⟨es ++ es', h.append h'⟩

end Server

end HaxeMacro
