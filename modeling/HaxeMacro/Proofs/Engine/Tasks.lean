import HaxeMacro.Proofs.Engine.Steady

/-! # The tasks that are performed

What the engine has its runtimes perform stands in a log that type checkers and preparations leave
alone. All that happens before a macro is called adds nothing to it but the evaluation of arguments.
-/

namespace HaxeMacro

variable {R I G α : Type}

def RuntimeTask.IsEvaluation : RuntimeTask → Prop
  | evalExpr _ => True
  | callByPath .. | callFunction .. => False

/-- The tasks that were performed can be read off what is shared. -/
structure TaskLog (t : Typer I G) (rt : Runtime R I G) (log : G → List RuntimeTask) : Prop where
  asks : ∀ {α : Type} {op : Checking I G α}, t.Asks op →
    ∀ typer world, log (op.run (typer, world)).2.2.host = log world.host
  freshType : ∀ typer world, log (t.freshType.run (typer, world)).2.2.host = log world.host
  takeProduced : ∀ typer world, log (t.takeProduced.run (typer, world)).2.2.host = log world.host
  setDisplay : ∀ display typer world,
    log ((t.setDisplay display).run (typer, world)).2.2.host = log world.host
  prepares : ∀ {session session'}, rt.Prepares session session' →
    log session'.world.host = log session.world.host
  performs : ∀ task state session,
    log ((rt.perform task).run (state, session)).2.2.world.host = log session.world.host ++ [task]

namespace EngineState

/-- The log has grown, by allowed tasks only. -/
def Adds (log : G → List RuntimeTask) (allowed : RuntimeTask → Prop)
    (s s' : EngineState R I G) : Prop :=
  ∃ tasks, log s'.world.host = log s.world.host ++ tasks ∧ ∀ task ∈ tasks, allowed task

namespace Adds

variable {log : G → List RuntimeTask} {allowed : RuntimeTask → Prop} {s s' : EngineState R I G}

theorem of_eq (h : log s'.world.host = log s.world.host) : s.Adds log allowed s' :=
  ⟨[], by rw [h, List.append_nil], nofun⟩

theorem eq (h : s.Adds log (fun _ => False) s') : log s'.world.host = log s.world.host := by
  obtain ⟨tasks, hlog, hnone⟩ := h
  rw [hlog, List.eq_nil_iff_forall_not_mem.mpr hnone, List.append_nil]

theorem trans {a b c : EngineState R I G} (h : a.Adds log allowed b) (h' : b.Adds log allowed c) :
    a.Adds log allowed c := by
  obtain ⟨tasks, hlog, hallowed⟩ := h
  obtain ⟨tasks', hlog', hallowed'⟩ := h'
  refine ⟨tasks ++ tasks', by rw [hlog', hlog, List.append_assoc], fun task htask => ?_⟩
  exact (List.mem_append.mp htask).elim (hallowed task) (hallowed' task)

end Adds

end EngineState

open EngineState (Adds Move)

namespace TaskLog

variable {t : Typer I G} {rt : Runtime R I G} {log : G → List RuntimeTask} (h : TaskLog t rt log)
include h

theorem log_move {s s' : EngineState R I G} (hmove : Move t rt s s') :
    log s'.world.host = log s.world.host := by
  cases hmove with
  | askPrimary hop => exact h.asks hop _ _
  | freshType => exact h.freshType _ _
  | takeProduced hmacros => exact h.takeProduced _ _
  | fork => exact h.setDisplay _ _ _
  | prepare hprepares => exact h.prepares hprepares
  | change world hhost => exact congrArg log hhost
  | _ => rfl

theorem steady (allowed : RuntimeTask → Prop) :
    EngineM.Steady t rt fun s _ s' => s.Adds log allowed s' where
  stay := .of_eq rfl
  trans := .trans
  ask hop _ := .of_eq (h.asks hop _ _)
  display display _ := .of_eq (h.setDisplay display _ _)
  move hmove := .of_eq (h.log_move hmove)
  flushed _ hadds := hadds
  invalidated := id
  dropped := id

/-! ## Running code -/

theorem log_called (s : EngineState R I G) (name : String) (pos : Position)
    (live : LiveRuntime R) (task : RuntimeTask) :
    log (EngineM.called s name pos live (rt.perform task)).world.host =
      log s.world.host ++ [task] :=
  h.performs task _ _

omit h in
theorem world_concludeCall (folder : DumpFolder) (name : String) (pos : Position)
    (result : Except RuntimeFailure α) (s : EngineState R I G) :
    ((EngineM.concludeCall folder name pos result).run s).2.world = s.world := by
  rcases result with (payload | message | stop) | value <;> rfl

/-- Either there is no runtime, and nothing happens, or the task is performed once. -/
theorem withRuntime_cases (name : String) (pos : Position) (task : RuntimeTask)
    (s : EngineState R I G) :
    (∃ fault, (EngineM.withRuntime name pos (rt.perform task)).run s = (.error fault, s)) ∨
    ∃ result s', (EngineM.withRuntime name pos (rt.perform task)).run s = (result, s') ∧
      log s'.world.host = log s.world.host ++ [task] := by
  cases hlive : s.engine.isLive with
  | false => exact .inl ⟨_, EngineM.run_withRuntime_of_not_live hlive name pos _⟩
  | true =>
    obtain ⟨live, hruntime, hhealthy⟩ := Engine.exists_of_isLive hlive
    refine .inr ⟨_, _, EngineM.run_withRuntime hruntime hhealthy name pos _, Eq.trans ?_
      (h.log_called s name pos live task)⟩
    exact congrArg (log ·.host) (world_concludeCall _ name pos _ _)

theorem adds_withRuntime {allowed : RuntimeTask → Prop} (task : RuntimeTask)
    (htask : allowed task) (name : String) (pos : Position) :
    EngineM.Leads (fun (s : EngineState R I G) _ s' => s.Adds log allowed s')
      (EngineM.withRuntime name pos (rt.perform task)) := by
  intro s
  obtain ⟨fault, hrun⟩ | ⟨result, s', hrun, hlog⟩ := h.withRuntime_cases name pos task s
  · rw [hrun]
    exact .of_eq rfl
  · rw [hrun]
    exact ⟨[task], hlog, by simpa using htask⟩

theorem adds_marshalArgs (name : String) (pos : Position) (args : List Expr)
    (params : List (TyParam × ArgClass)) (matched : List MatchedArg) :
    EngineM.Leads (fun (s : EngineState R I G) _ s' => s.Adds log RuntimeTask.IsEvaluation s')
      (EngineM.marshalArgs t rt name pos args params matched) :=
  (h.steady _).marshalArgs (fun name pos e => h.adds_withRuntime (.evalExpr e) trivial name pos)
    name pos args params matched

end TaskLog

/-! ## Keeping a log -/

/-- What is shared, together with a log of tasks. -/
structure Logged (G : Type) where
  host : G
  tasks : List RuntimeTask

namespace World

def withLog (w : World G) (tasks : List RuntimeTask) : World (Logged G) :=
  ⟨w.modules, ⟨w.host, tasks⟩⟩

def withoutLog (w : World (Logged G)) : World G := ⟨w.modules, w.host.host⟩

end World

namespace Session

def withLog (s : Session I G) (tasks : List RuntimeTask) : Session I (Logged G) :=
  ⟨s.compilation, s.world.withLog tasks, s.pos, s.macroName⟩

def withoutLog (s : Session I (Logged G)) : Session I G :=
  ⟨s.compilation, s.world.withoutLog, s.pos, s.macroName⟩

end Session

namespace Logged

def ask (op : StateM (I × World G) α) : StateM (I × World (Logged G)) α :=
  fun (typer, world) =>
    let (result, typer, after) := op.run (typer, world.withoutLog)
    (result, typer, after.withLog world.host.tasks)

def act (tasks : List RuntimeTask) (op : StateM (R × Session I G) α) :
    StateM (R × Session I (Logged G)) α :=
  fun (state, session) =>
    let (result, state, after) := op.run (state, session.withoutLog)
    (result, state, after.withLog (session.world.host.tasks ++ tasks))

end Logged

def Typer.logged (t : Typer I G) : Typer I (Logged G) where
  fork := t.fork
  loadModule path pos := Logged.ask (t.loadModule path pos)
  loadComplexType type pos := Logged.ask (t.loadComplexType type pos)
  unify actual expected := Logged.ask (t.unify actual expected)
  typeExpr e expected := Logged.ask (t.typeExpr e expected)
  matchArgs args params pos := Logged.ask (t.matchArgs args params pos)
  freshType := Logged.ask t.freshType
  defineModule path definitions pos := Logged.ask (t.defineModule path definitions pos)
  finalize := Logged.ask t.finalize
  takeProduced := Logged.ask t.takeProduced
  setDisplay display := Logged.ask (t.setDisplay display)

def Runtime.logged (rt : Runtime R I G) : Runtime R I (Logged G) where
  create := rt.create
  init := Logged.act [] rt.init
  reuse := Logged.act [] rt.reuse
  callByPath path method args :=
    Logged.act [.callByPath path method args] (rt.callByPath path method args)
  callFunction f args := Logged.act [.callFunction f args] (rt.callFunction f args)
  evalExpr e := Logged.act [.evalExpr e] (rt.evalExpr e)

/-- Every type checker and every runtime can be had with a log. -/
theorem TaskLog.logged (t : Typer I G) (rt : Runtime R I G) :
    TaskLog t.logged rt.logged Logged.tasks where
  asks hop _ _ := by cases hop <;> rfl
  freshType _ _ := rfl
  takeProduced _ _ := rfl
  setDisplay _ _ _ := rfl
  prepares hprepares := by cases hprepares <;> exact List.append_nil _
  performs task _ _ := by cases task <;> rfl

end HaxeMacro
