import HaxeMacro.Proofs.Engine.Tasks
import HaxeMacro.Proofs.Engine.Transparency

/-! # Calls that are rejected

A call runs code only when its macro is resolved and returns what it should, and its arguments fit.
The macro itself runs once at most, after all arguments are evaluated.
-/

namespace HaxeMacro

variable {R I G α : Type}

def Binding.split (b : Binding) (args : List Expr) (pos : Position) : CallArgs :=
  .split (restAsArray b.params) args pos

namespace EngineM

variable (t : Typer I G) (rt : Runtime R I G)

/-! ## The parts of a preparation -/

/-- The part of an invocation up to the check of what the macro returns. -/
def accept (mode : CallMode) (r : Reference) (pos : Position) : EngineM R I G Binding := do
  let b ← loadMacro t rt .program r (mode == .display) pos
  let _ ← macroContext t rt
  checkContract t mode b pos
  return b

def classifyParams (b : Binding) : EngineM R I G (List ArgClass) := do
  let _ ← macroContext t rt
  (restAsArray b.params).mapM (classify t)

def matchParams (b : Binding) (classes : List ArgClass) (args : List Expr) (pos : Position) :
    EngineM R I G (Except TypingError (List MatchedArg)) :=
  checkPrimary (t.matchArgs (b.split args pos).fixed
    (List.zipWith ArgClass.widen (restAsArray b.params) classes) pos)

theorem prepareCall_eq (r : Reference) (b : Binding) (args : List Expr) (pos : Position) :
    prepareCall t rt r b args pos = (do
      let classes ← classifyParams t rt b
      let matched ← orFail (← matchParams t b classes args pos)
      let values ← marshalArgs t rt r.text pos (b.split args pos).fixed
        ((restAsArray b.params).zip classes) matched
      return ⟨b, b.split args pos, classes, matched,
        placeRest (b.split args pos).rest values⟩) := by
  simp only [prepareCall, classifyParams, matchParams, Binding.split, bind_assoc]

theorem prepare_eq (mode : CallMode) (r : Reference) (args : List Expr) (pos : Position) :
    prepare t rt mode r args pos =
      (do prepareCall t rt r (← accept t rt mode r pos) args pos) := by
  simp only [prepare, accept, bind_assoc, pure_bind]

/-- The preparation of a call, part by part. -/
inductive Readies (mode : CallMode) (r : Reference) (args : List Expr) (pos : Position)
    (s : EngineState R I G) (call : PreparedCall) (s' : EngineState R I G) : Prop
  | intro {s₁ s₂ s₃ : EngineState R I G} {values : List Value}
    (haccept : (accept t rt mode r pos).run s = (.ok call.binding, s₁))
    (hclasses : (classifyParams t rt call.binding).run s₁ = (.ok call.classes, s₂))
    (hmatch : (matchParams t call.binding call.classes args pos).run s₂ =
      (.ok (.ok call.matched), s₃))
    (hargs : call.args = call.binding.split args pos)
    (hmarshal : (marshalArgs t rt r.text pos call.args.fixed (call.params.zip call.classes)
      call.matched).run s₃ = (.ok values, s'))
    (hvalues : call.values = placeRest call.args.rest values)

/-- The call is rejected before any argument is evaluated. -/
inductive Rejects (mode : CallMode) (r : Reference) (args : List Expr) (pos : Position)
    (s : EngineState R I G) : Fault → EngineState R I G → Prop
  | resolution {fault s'}
    (hload : (loadMacro t rt .program r (mode == .display) pos).run (s.selecting .macros) =
      (.error fault, s')) : Rejects mode r args pos s fault s'
  | contract {b scope s₁ s₂ fault s'}
    (hload : (loadMacro t rt .program r (mode == .display) pos).run (s.selecting .macros) =
      (.ok b, s₁))
    (hcontext : (macroContext t rt).run s₁ = (.ok scope, s₂))
    (hcontract : (checkContract t mode b pos).run s₂ = (.error fault, s')) :
    Rejects mode r args pos s fault s'
  | matching {b classes e s₁ s₂ s'} (hmode : mode ≠ .display)
    (haccept : (accept t rt mode r pos).run (s.selecting .macros) = (.ok b, s₁))
    (hclasses : (classifyParams t rt b).run s₁ = (.ok classes, s₂))
    (hmatch : (matchParams t b classes args pos).run s₂ = (.ok (.error e), s')) :
    Rejects mode r args pos s (.error e.toMacroError) s'

variable {t rt}

theorem ok_of_run_orFail {result : Except TypingError α} {a : α} {s s' : EngineState R I G}
    (h : (orFail result : EngineM R I G α).run s = (.ok a, s')) : result = .ok a ∧ s' = s := by
  cases result with
  | ok a => cases h; exact ⟨rfl, rfl⟩
  | error e => cases h

theorem readies_of_prepare {mode : CallMode} {r : Reference} {args : List Expr} {pos : Position}
    {s s' : EngineState R I G} {call : PreparedCall}
    (h : (prepare t rt mode r args pos).run s = (.ok call, s')) :
    Readies t rt mode r args pos s call s' := by
  rw [prepare_eq] at h
  obtain ⟨b, s₁, haccept, hcall⟩ := ok_of_run_bind h
  rw [prepareCall_eq] at hcall
  obtain ⟨classes, s₂, hclasses, hmatching⟩ := ok_of_run_bind hcall
  obtain ⟨result, s₃, hmatch, horFail⟩ := ok_of_run_bind hmatching
  obtain ⟨matched, s₄, hmatched, hmarshaling⟩ := ok_of_run_bind horFail
  obtain ⟨rfl, rfl⟩ := ok_of_run_orFail hmatched
  obtain ⟨values, s₅, hmarshal, hend⟩ := ok_of_run_bind hmarshaling
  cases hend
  exact ⟨haccept, hclasses, hmatch, rfl, hmarshal, rfl⟩

theorem run_invoke_display (r : Reference) (args : List Expr) (pos : Position)
    (s : EngineState R I G) :
    (invoke t rt .program .display r args pos).run s =
      (withMacroSelection do
        let _ ← accept t rt .display r pos
        return .displayOnly).run s := by
  simp only [invoke, accept, if_true, bind_assoc, pure_bind]

theorem Rejects.run_invoke {mode : CallMode} {r : Reference} {args : List Expr} {pos : Position}
    {s s' : EngineState R I G} {fault : Fault} (h : Rejects t rt mode r args pos s fault s') :
    (invoke t rt .program mode r args pos).run s =
      (.error fault, s'.selecting s.engine.selection) := by
  cases h with
  | resolution hload =>
    rw [invoke, run_withMacroSelection, run_bind_error hload]
  | contract hload hcontext hcontract =>
    rw [invoke, run_withMacroSelection, run_bind_ok hload, run_bind_ok hcontext,
      run_bind_error hcontract]
  | matching hmode haccept hclasses hmatch =>
    rw [invoke_eq t rt hmode, run_withMacroSelection, prepare_eq]
    simp only [bind_assoc]
    rw [run_bind_ok haccept, prepareCall_eq]
    simp only [bind_assoc]
    rw [run_bind_ok hclasses, run_bind_ok hmatch]
    rfl

end EngineM

open EngineM (Leads Rejects Readies)
open EngineState (Adds)

namespace TaskLog

variable {t : Typer I G} {rt : Runtime R I G} {log : G → List RuntimeTask} (h : TaskLog t rt log)
include h

/-! ## What a call adds to the log -/

section Preparation

variable (allowed : RuntimeTask → Prop)

theorem adds_loadMacro (side : Side) (r : Reference) (display : Bool) (pos : Position) :
    Leads (fun (s : EngineState R I G) _ s' => s.Adds log allowed s')
      (EngineM.loadMacro t rt side r display pos) :=
  (h.steady allowed).loadMacro (fun _ _ _ => .of_eq rfl) (fun _ _ _ _ => .of_eq rfl)
    (fun _ _ hadds => hadds) side r display pos

theorem adds_accept (mode : CallMode) (r : Reference) (pos : Position) :
    Leads (fun (s : EngineState R I G) _ s' => s.Adds log allowed s')
      (EngineM.accept t rt mode r pos) :=
  have hs := h.steady allowed
  hs.bind (h.adds_loadMacro allowed .program r _ pos) fun b =>
    hs.bind hs.macroContext fun _ => hs.bind (hs.checkContract mode b pos) fun _ => hs.pure b

theorem adds_classifyParams (b : Binding) :
    Leads (fun (s : EngineState R I G) _ s' => s.Adds log allowed s')
      (EngineM.classifyParams t rt b) :=
  have hs := h.steady allowed
  hs.bind hs.macroContext fun _ => hs.mapM _ hs.classify

theorem adds_matchParams (b : Binding) (classes : List ArgClass) (args : List Expr)
    (pos : Position) :
    Leads (fun (s : EngineState R I G) _ s' => s.Adds log allowed s')
      (EngineM.matchParams t b classes args pos) :=
  (h.steady allowed).checkPrimary (.matchArgs _ _ _)

end Preparation

theorem adds_prepare (mode : CallMode) (r : Reference) (args : List Expr) (pos : Position) :
    Leads (fun (s : EngineState R I G) _ s' => s.Adds log RuntimeTask.IsEvaluation s')
      (EngineM.prepare t rt mode r args pos) := by
  have hs := h.steady RuntimeTask.IsEvaluation
  rw [EngineM.prepare_eq]
  refine hs.bind (h.adds_accept _ mode r pos) fun b => ?_
  rw [EngineM.prepareCall_eq]
  refine hs.bind (h.adds_classifyParams _ b) fun classes => ?_
  refine hs.bind (h.adds_matchParams _ b classes args pos) fun result => ?_
  refine hs.bind (hs.orFail result) fun matched => ?_
  exact hs.bind (h.adds_marshalArgs _ _ _ _ _) fun values => hs.pure _

theorem log_of_rejects {mode : CallMode} {r : Reference} {args : List Expr} {pos : Position}
    {s s' : EngineState R I G} {fault : Fault}
    (hrejects : Rejects t rt mode r args pos s fault s') :
    log s'.world.host = log s.world.host := by
  have hs := h.steady fun _ => False
  have hadds {α : Type} {op : EngineM R I G α} {a b : EngineState R I G} {result : Except Fault α}
      (hrun : op.run a = (result, b))
      (hop : Leads (fun (s : EngineState R I G) _ s' => s.Adds log (fun _ => False) s') op) :
      log b.world.host = log a.world.host := by
    have hab := hop a
    rw [hrun] at hab
    exact hab.eq
  cases hrejects with
  | resolution hload =>
    have hloaded := hadds hload (h.adds_loadMacro _ _ _ _ _)
    exact hloaded
  | contract hload hcontext hcontract =>
    have hloaded := hadds hload (h.adds_loadMacro _ _ _ _ _)
    have hentered := hadds hcontext hs.macroContext
    exact (hadds hcontract (hs.checkContract _ _ _)).trans (hentered.trans hloaded)
  | matching hmode haccept hclasses hmatch =>
    have haccepted := hadds haccept (h.adds_accept _ _ _ _)
    have hclassified := hadds hclasses (h.adds_classifyParams _ _)
    exact (hadds hmatch (h.adds_matchParams _ _ _ _ _)).trans (hclassified.trans haccepted)

theorem execute_cases (mode : CallMode) (r : Reference) (pos : Position) (call : PreparedCall)
    (s : EngineState R I G) :
    (∃ fault, (EngineM.execute t rt mode r pos call).run s = (.error fault, s)) ∨
    ∃ result s', (EngineM.execute t rt mode r pos call).run s = (result, s') ∧
      log s'.world.host = log s.world.host ++
        [.callByPath call.binding.classPath call.binding.field call.values] := by
  have hs := h.steady fun _ => False
  obtain ⟨fault, hrun⟩ | ⟨result, s', hrun, hlog⟩ := h.withRuntime_cases r.text pos
    (.callByPath call.binding.classPath call.binding.field call.values) s
  · exact .inl ⟨fault, run_bind_error hrun⟩
  · rcases result with fault | none | v
    · exact .inr ⟨_, _, run_bind_error hrun, hlog⟩
    · exact .inr ⟨_, _, run_bind_ok hrun, hlog⟩
    · exact .inr ⟨_, _, run_bind_ok hrun, (hs.readResult mode v pos s').eq.trans hlog⟩

end TaskLog

/-! ## Initial calls -/

/-- The text of an initial call is no dotted call with constant arguments. -/
inductive RefusedInit (text : String) : Prop
  | unparsed {e} (hparse : Expr.parse text .null = .error e)
  | undotted {e} (hparse : Expr.parse text .null = .ok e)
    (hcall : ∀ callee args, e.kind = .call callee args → callee.dotted? = none)
  | inconstant {e callee args arg fault} (hparse : Expr.parse text .null = .ok e)
    (hcall : e.kind = .call callee args) (harg : arg ∈ args)
    (hconstant : arg.constant = .error fault)

theorem Expr.initCall_of_undotted {e : Expr}
    (h : ∀ callee args, e.kind = .call callee args → callee.dotted? = none) :
    ∃ error, e.initCall = .error error := by
  unfold initCall
  split
  · rename_i callee args hkind
    rw [h callee args hkind]
    exact ⟨_, rfl⟩
  · exact ⟨_, rfl⟩

theorem Expr.args_of_initCall {e callee : Expr} {args : List Expr}
    {call : Reference × List Expr} (hkind : e.kind = .call callee args)
    (h : e.initCall = .ok call) : call.2 = args := by
  unfold initCall at h
  rw [hkind] at h
  dsimp only at h
  split at h <;> cases h
  rfl

theorem error_of_mapM_of_mem {ε β : Type} {f : α → Except ε β} {as : List α} {a : α} {e : ε}
    (ha : a ∈ as) (h : f a = .error e) : ∃ e', as.mapM f = .error e' := by
  induction as with
  | nil => cases ha
  | cons b as ih =>
    rw [List.mapM_cons]
    cases hb : f b with
    | error e' => exact ⟨e', rfl⟩
    | ok c =>
      have hne : a ≠ b := by
        rintro rfl
        cases hb.symm.trans h
      obtain ⟨e', hrest⟩ := ih ((List.mem_cons.mp ha).resolve_left hne)
      exact ⟨e', by rw [hrest]; rfl⟩

namespace EngineM

variable {t : Typer I G} {rt : Runtime R I G} {log : G → List RuntimeTask}

/-- What is refused leaves the engine and the compilation as they are. -/
theorem run_runInit_of_refused {text : String} (h : RefusedInit text) (s : EngineState R I G) :
    ∃ fault, (runInit t rt text).run s = (.error fault, s) := by
  unfold runInit
  cases h with
  | unparsed hparse =>
    rw [hparse]
    exact ⟨_, rfl⟩
  | undotted hparse hcall =>
    obtain ⟨error, herror⟩ := Expr.initCall_of_undotted hcall
    rw [hparse]
    dsimp only
    rw [herror]
    exact ⟨_, rfl⟩
  | @inconstant e callee args arg fault hparse hcall harg hconstant =>
    rw [hparse]
    dsimp only
    cases hinit : e.initCall with
    | error error => exact ⟨_, rfl⟩
    | ok call =>
      obtain rfl := Expr.args_of_initCall hcall hinit
      obtain ⟨fault', hfault⟩ := error_of_mapM_of_mem harg hconstant
      rw [ofResult, pure_bind, hfault]
      exact ⟨_, rfl⟩

/-! ## Calls -/

theorem invoke_cases (h : TaskLog t rt log) {mode : CallMode} (hmode : mode ≠ .display)
    (r : Reference) (args : List Expr) (pos : Position) (s : EngineState R I G) :
    ∃ s₁, s.Adds log RuntimeTask.IsEvaluation s₁ ∧
      ((∃ fault s', (invoke t rt .program mode r args pos).run s = (.error fault, s') ∧
        log s'.world.host = log s₁.world.host) ∨
      ∃ call result s', Readies t rt mode r args pos (s.selecting .macros) call s₁ ∧
        (invoke t rt .program mode r args pos).run s = (result, s') ∧
        log s'.world.host = log s₁.world.host ++
          [.callByPath call.binding.classPath call.binding.field call.values]) := by
  have hadds := h.adds_prepare mode r args pos (s.selecting .macros)
  rw [invoke_eq t rt hmode, run_withMacroSelection]
  rcases hprepare : (prepare t rt mode r args pos).run (s.selecting .macros) with
    ⟨fault | call, s₁⟩ <;> rw [hprepare] at hadds
  · rw [run_bind_error hprepare]
    exact ⟨s₁, hadds, .inl ⟨fault, _, rfl, rfl⟩⟩
  · rw [run_bind_ok hprepare]
    refine ⟨s₁, hadds, ?_⟩
    obtain ⟨fault, hrun⟩ | ⟨result, s', hrun, hlog⟩ := h.execute_cases mode r pos call s₁
    · rw [hrun]
      exact .inl ⟨fault, _, rfl, rfl⟩
    · rw [hrun]
      exact .inr ⟨call, result, _, readies_of_prepare hprepare, rfl, hlog⟩

theorem log_invoke_display (h : TaskLog t rt log) (r : Reference) (args : List Expr)
    (pos : Position) (s : EngineState R I G) :
    log ((invoke t rt .program .display r args pos).run s).2.world.host = log s.world.host := by
  have hs := h.steady fun _ => False
  have haccept : Leads (fun (s : EngineState R I G) _ s' => s.Adds log (fun _ => False) s')
      (do let _ ← accept t rt .display r pos; return CallResult.displayOnly) :=
    hs.bind (h.adds_accept _ .display r pos) fun _ => hs.pure _
  rw [run_invoke_display]
  exact (haccept (s.selecting .macros)).eq

/-- Calls that are rejected run no code. From macro code nothing is called and nothing changes, and
for a query nothing is run. A call runs nothing when its macro is not resolved or does not return
what it should, or when its arguments do not fit. Otherwise all that is run before the macro are
evaluations of arguments; the macro is called once at most, when all its arguments are marshalled,
and once if the call has a result. An initial call that is no dotted call with constant arguments
changes nothing. -/
theorem rejected_calls_run_nothing (h : TaskLog t rt log) (s : EngineState R I G) :
    (∀ mode r args pos,
      (invoke t rt .macros mode r args pos).run s = (.ok .macroInMacro, s)) ∧
    (∀ r args pos,
      log ((invoke t rt .program .display r args pos).run s).2.world.host = log s.world.host) ∧
    (∀ mode r args pos fault s', Rejects t rt mode r args pos s fault s' →
      (invoke t rt .program mode r args pos).run s =
        (.error fault, s'.selecting s.engine.selection) ∧
      log s'.world.host = log s.world.host) ∧
    (∀ mode r args pos, mode ≠ .display → ∃ s₁, s.Adds log RuntimeTask.IsEvaluation s₁ ∧
      ((∃ fault s', (invoke t rt .program mode r args pos).run s = (.error fault, s') ∧
        log s'.world.host = log s₁.world.host) ∨
      ∃ call result s', Readies t rt mode r args pos (s.selecting .macros) call s₁ ∧
        (invoke t rt .program mode r args pos).run s = (result, s') ∧
        log s'.world.host = log s₁.world.host ++
          [.callByPath call.binding.classPath call.binding.field call.values])) ∧
    ∀ text, RefusedInit text → ∃ fault, (runInit t rt text).run s = (.error fault, s) :=
  ⟨fun _ _ _ _ => rfl, fun r args pos => log_invoke_display h r args pos s,
    fun _ _ _ _ _ _ hrejects => ⟨hrejects.run_invoke, h.log_of_rejects hrejects⟩,
    fun _ r args pos hmode => invoke_cases h hmode r args pos s,
    fun _ hrefused => run_runInit_of_refused hrefused s⟩

end EngineM

/-! ## A stage that keeps a log -/

namespace RejectedCall

def typer : Typer Checker (Logged Host) := Checker.typer.logged

def runtime : Runtime Unit Checker (Logged Host) := (Echo.runtime List.head?).logged

def start : EngineState Unit Checker (Logged Host) :=
  ⟨.new, Echo.start.compilation, Echo.start.world.withLog []⟩

def missing : Reference := ⟨Echo.tools, "missing"⟩

def asked : Except Fault Binding × EngineState Unit Checker (Logged Host) :=
  (EngineM.loadMacro typer runtime .program missing false Echo.pos).run (start.selecting .macros)

theorem rejects_missing : ∃ fault,
    Rejects typer runtime .expr missing [Echo.given] Echo.pos start fault asked.2 := by
  have hfails : asked.1.isOk = false := by decide +kernel
  cases hasked : asked.1 with
  | ok b =>
    rw [hasked] at hfails
    cases hfails
  | error fault => exact ⟨fault, .resolution (Prod.ext hasked rfl)⟩

def called : Except Fault CallResult × EngineState Unit Checker (Logged Host) :=
  (EngineM.invoke typer runtime .program .expr Echo.same [Echo.given] Echo.pos).run start

/-- A method that is missing is not called, and the one that is there is called once, after all
else. A text without a call is refused. -/
theorem missing_is_not_called :
    asked.2.world.host.tasks = [] ∧
    (∃ (evaluated : List RuntimeTask) (call : PreparedCall),
      (∀ task ∈ evaluated, task.IsEvaluation) ∧
      called.2.world.host.tasks = evaluated ++
        [.callByPath call.binding.classPath call.binding.field call.values]) ∧
    ∃ fault, (EngineM.runInit typer runtime "").run start = (.error fault, start) := by
  obtain ⟨-, -, hrejects, hcalls, hrefuses⟩ := EngineM.rejected_calls_run_nothing
    (TaskLog.logged Checker.typer (Echo.runtime List.head?)) start
  refine ⟨?_, ?_, hrefuses "" ?_⟩
  · obtain ⟨fault, hmissing⟩ := rejects_missing
    exact (hrejects _ _ _ _ _ _ hmissing).2
  · have hok : called.1.isOk = true := by decide +kernel
    obtain ⟨s₁, ⟨evaluated, hlog, hevaluated⟩, hcase⟩ :=
      hcalls .expr Echo.same [Echo.given] Echo.pos (by decide)
    obtain ⟨fault, s', hrun, -⟩ | ⟨call, result, s', -, hrun, hlog'⟩ := hcase
    · have herror : called.1 = .error fault := congrArg Prod.fst hrun
      rw [herror] at hok
      cases hok
    · have hend : called.2 = s' := congrArg Prod.snd hrun
      refine ⟨evaluated, call, hevaluated, ?_⟩
      rw [hend, hlog', hlog]
      rfl
  · have hfails : (Expr.parse "" .null).isOk = false := by decide +kernel
    cases hparse : Expr.parse "" .null with
    | ok e =>
      rw [hparse] at hfails
      cases hfails
    | error e => exact .unparsed hparse

end RejectedCall

end HaxeMacro
