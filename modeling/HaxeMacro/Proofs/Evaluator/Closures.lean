import HaxeMacro.Proofs.Engine.Server
import HaxeMacro.Proofs.Evaluator.Sessions
import HaxeMacro.Rehearsal.Stage

/-! # Closures and their names

A closure is known by its name. While a runtime lives, no name that it has given to a closure is
given to another one.
-/

namespace HaxeMacro

variable {ι I G α : Type}

/-! ## Names -/

theorem closureName_inj {i j : UInt32} (h : closureName i = closureName j) : i = j := by
  have hdigits : Nat.toDigits 10 i.toNat = Nat.toDigits 10 j.toNat := by
    rw [← Nat.toList_repr, ← Nat.toList_repr]
    have hrepr := (String.append_right_inj _).mp ((String.append_left_inj ">").mp h)
    exact congrArg String.toList hrepr
  have hread := congrArg (Nat.ofDigitChars 10 · 0) hdigits
  exact UInt32.toNat_inj.mp (by simpa [Nat.ofDigitChars_toDigits] using hread)

theorem splitLast_eq_none {separator : Char} {s : List Char} (h : separator ∉ s) :
    splitLast separator s = none :=
  if_neg (by simpa using h)

theorem methodOf?_closureName (i : UInt32) : Eval.methodOf? (closureName i) = none := by
  have hdot : '.' ∉ (closureName i).toList := by
    have hdigit (hmem : '.' ∈ (toString i).toList) : False := by
      have hdot := Nat.isDigit_of_mem_toDigits (by decide) (Nat.le_refl 10)
        (Nat.toList_repr ▸ hmem)
      revert hdot
      decide
    rw [closureName, String.toList_append, String.toList_append]
    simp only [List.mem_append, not_or]
    exact ⟨⟨by decide, hdigit⟩, by decide⟩
  rw [Eval.methodOf?, splitLast_eq_none hdot]
  rfl

namespace NativeState

/-- The function value is a closure that was made from `f`, and it stands for no other literal. -/
structure Owns (s : NativeState) (v : Value) (f : FunctionDef) : Prop where
  closure : ∃ i < s.nextClosure, v = .function (closureName i) f.params.length ∧
    ∀ g, Entries.get? s.closures (closureName i) = some g → g = f

variable {s s' : NativeState} {v w : Value} {f g : FunctionDef}

/-- A closure that is made has a number before the next one, which no closure had. -/
theorem addClosure_eq_ok (h : s.addClosure f = .ok (v, s')) :
    v = .function (closureName s.nextClosure) f.params.length ∧
      s'.closures = Entries.set s.closures (closureName s.nextClosure) f ∧
      s'.nextClosure.toNat = s.nextClosure.toNat + 1 := by
  unfold addClosure at h
  split at h
  · rename_i hfits
    cases h
    refine ⟨rfl, rfl, ?_⟩
    rw [UInt32.toNat_add]
    exact Nat.mod_eq_of_lt hfits
  · cases h

theorem owns_addClosure (h : s.addClosure f = .ok (v, s')) : s'.Owns v f := by
  obtain ⟨rfl, hclosures, hnext⟩ := addClosure_eq_ok h
  refine ⟨s.nextClosure, UInt32.lt_iff_toNat_lt.mpr (by omega), rfl, fun g hg => ?_⟩
  rw [hclosures] at hg
  exact (Option.some.inj ((Entries.get?_set_self _ _ _).symm.trans hg)).symm

theorem Owns.addClosure (howns : s.Owns v f) (h : s.addClosure g = .ok (w, s')) : s'.Owns v f := by
  obtain ⟨-, hclosures, hnext⟩ := addClosure_eq_ok h
  obtain ⟨i, hi, rfl, hown⟩ := howns
  have hi := UInt32.lt_iff_toNat_lt.mp hi
  refine ⟨i, UInt32.lt_iff_toNat_lt.mpr (by omega), rfl, fun g' hg' => hown g' ?_⟩
  have hne : closureName s.nextClosure ≠ closureName i := fun heq =>
    Nat.ne_of_gt hi (congrArg UInt32.toNat (closureName_inj heq))
  rw [hclosures] at hg'
  exact (Entries.get?_set_of_ne _ hne _).symm.trans hg'

theorem Owns.forget (h : s.Owns v f) : (NativeRuntime.forget s).Owns v f := by
  obtain ⟨i, hi, rfl, -⟩ := h
  exact ⟨i, hi, rfl, nofun⟩

end NativeState

/-! ## Evaluations -/

namespace Eval

theorem chained_owns : Chained fun a b : NativeState × Session I G =>
    ∀ v f, a.1.Owns v f → b.1.Owns v f where
  refl _ _ _ := id
  trans h h' v f howns := h' v f (h v f howns)
  closure hadd _ _ howns := howns.addClosure hadd

theorem owns_eval (natives : Natives I G) (steps : Nat) (e : Expr) {s : EvalState I G} {v : Value}
    {f : FunctionDef} (h : s.runtime.Owns v f) :
    ((eval natives steps e).run s).2.runtime.Owns v f :=
  Keeps.eval chained_owns (fun _ _ _ _ _ _ _ => id) steps e s v f h

/-- A closure runs its own literal, or the runtime does not know it. -/
theorem run_callFunction_of_owns (natives : Natives I G) (run : Expr → Eval I G Value)
    (args : List Value) {s : EvalState I G} {v : Value} {f : FunctionDef}
    (h : s.runtime.Owns v f) :
    (callFunction natives run v args).run s = (callClosure run f args).run s ∨
    ∃ name arity, v = .function name arity ∧
      (callFunction natives run v args).run s =
        (.error (.failure (.ofText ("Unknown function " ++ name))), s) := by
  obtain ⟨i, -, rfl, hown⟩ := h
  have hget : (callFunction natives run (.function (closureName i) f.params.length) args).run s =
    _ := run_bind_ok rfl
  cases hclosure : Entries.get? s.runtime.closures (closureName i) with
  | some g =>
    obtain rfl := hown g hclosure
    rw [hclosure] at hget
    exact .inl hget
  | none =>
    rw [hclosure, methodOf?_closureName] at hget
    exact .inr ⟨_, _, rfl, hget⟩

end Eval

namespace NativeRuntime

variable {natives : Natives I G} {failures : InitFailures} {steps : Nat}

theorem owns_perform (task : RuntimeTask) (session : Session I G) {state : NativeState} {v : Value}
    {f : FunctionDef} (h : state.Owns v f) :
    (((make natives failures steps).perform task).run (state, session)).2.1.Owns v f :=
  keeps_perform Eval.chained_owns (fun _ _ _ _ _ _ _ => id) failures steps task state session v f h

theorem run_callFunction_of_owns (args : List Value) (session : Session I G) {state : NativeState}
    {v : Value} {f : FunctionDef} (h : state.Owns v f) :
    ((make natives failures steps).callFunction v args).run (state, session) =
      (perform (Eval.callClosure (Eval.eval natives steps) f args)).run (state, session) ∨
    ∃ name arity, v = .function name arity ∧
      ((make natives failures steps).callFunction v args).run (state, session) =
        (.error (.ofText ("Unknown function " ++ name)), state, session) := by
  obtain hrun | ⟨name, arity, hv, hrun⟩ := Eval.run_callFunction_of_owns natives
    (Eval.eval natives steps) args (s := ⟨.empty, state, session⟩) h
  · left
    simp only [make, perform, ExceptT.run] at hrun ⊢
    rw [hrun]
  · refine .inr ⟨name, arity, hv, ?_⟩
    simp only [make, perform, ExceptT.run] at hrun ⊢
    rw [hrun]

end NativeRuntime

/-! ## Histories -/

namespace Server

variable {natives : Natives I G} {failures : NativeRuntime.InitFailures} {steps : Nat}

open NativeRuntime (make)

theorem turn_owns {s s' : EngineState NativeState I G} {es : List RuntimeEvent}
    (h : EngineState.Turn (make natives failures steps) s es s') :
    s.engine.generation < s'.engine.generation ∨
    s.engine.generation = s'.engine.generation ∧
      ∀ live v f, s.engine.runtime = some live → live.state.Owns v f →
        ∃ live', s'.engine.runtime = some live' ∧ live'.state.Owns v f := by
  cases h with
  | quiet h =>
    refine .inr ⟨h.generation.symm, fun live v f hlive howns => ⟨live, ?_, howns⟩⟩
    rw [h.runtime, hlive]
  | create h hready =>
    have hgeneration : s'.engine.generation = s.engine.generation + 1 := h.generation
    exact .inl (by omega)
  | @reuse _ live session hlive hpoisoned hruntime hgeneration hstats =>
    refine .inr ⟨hgeneration.symm, fun live' v f hlive' howns => ⟨_, hruntime, ?_⟩⟩
    cases hlive.symm.trans hlive'
    exact howns.forget
  | @run _ live session task hlive hpoisoned hruntime hgeneration hstats =>
    refine .inr ⟨hgeneration.symm, fun live' v f hlive' howns => ⟨_, hruntime, ?_⟩⟩
    cases hlive.symm.trans hlive'
    exact NativeRuntime.owns_perform task session howns
  | invalidate =>
    refine .inr ⟨rfl, fun live v f hlive howns => ?_⟩
    exact ⟨{ live with handle := live.handle.poison }, congrArg (Option.map _) hlive, howns⟩

variable [DecidableEq ι] {a b : Server ι NativeState I G} {es : List RuntimeEvent}

theorem History.owns (h : History (make natives failures steps) a es b) :
    a.engine.generation < b.engine.generation ∨
    a.engine.generation = b.engine.generation ∧
      ∀ live v f, a.engine.runtime = some live → live.state.Owns v f →
        ∃ live', b.engine.runtime = some live' ∧ live'.state.Owns v f := by
  induction h with
  | nil s => exact .inr ⟨rfl, fun live v f hlive howns => ⟨live, hlive, howns⟩⟩
  | cons hturn _ ih =>
    obtain hless | ⟨heq, hfirst⟩ := turn_owns hturn
    · refine .inl (Nat.lt_of_lt_of_le hless ?_)
      exact ih.elim Nat.le_of_lt fun h => Nat.le_of_eq h.1
    · obtain hless | ⟨heq', hrest⟩ := ih
      · exact .inl (Nat.lt_of_le_of_lt (Nat.le_of_eq heq) hless)
      · refine .inr ⟨heq.trans heq', fun live v f hlive howns => ?_⟩
        obtain ⟨live', hlive', howns'⟩ := hfirst live v f hlive howns
        exact hrest live' v f hlive' howns'

/-- While a runtime lives, a closure runs no literal but its own. The name that a function literal
gets stands for it alone, and whatever is evaluated does not change that: a runtime stops when it
has used up the numbers of its closures, and gives none of them again. However many requests come
later, a call of the closure runs its own literal or fails, as long as the engine makes no other
runtime. -/
theorem closures_run_own_literal (natives : Natives I G) (failures : NativeRuntime.InitFailures)
    (steps : Nat) :
    (∀ (s s' : NativeState) f v, s.addClosure f = .ok (v, s') → s'.Owns v f) ∧
    (∀ (s : EvalState I G) v f n e, s.runtime.Owns v f →
      ((Eval.eval natives n e).run s).2.runtime.Owns v f) ∧
    ∀ (a b : Server ι NativeState I G) es live live' v f,
      History (make natives failures steps) a es b → a.engine.runtime = some live →
      live.state.Owns v f → b.engine.runtime = some live' →
      a.engine.generation < b.engine.generation ∨ ∀ args session,
        ((make natives failures steps).callFunction v args).run (live'.state, session) =
          (NativeRuntime.perform (Eval.callClosure (Eval.eval natives steps) f args)).run
            (live'.state, session) ∨
        ∃ name arity, v = .function name arity ∧
          ((make natives failures steps).callFunction v args).run (live'.state, session) =
            (.error (.ofText ("Unknown function " ++ name)), live'.state, session) := by
  refine ⟨fun _ _ _ _ => NativeState.owns_addClosure,
    fun s v f n e h => Eval.owns_eval natives n e h, ?_⟩
  intro a b es live live' v f h hlive howns hlive'
  refine h.owns.imp_right fun ⟨_, hkept⟩ args session => ?_
  obtain ⟨held, hheld, howns'⟩ := hkept live v f hlive howns
  cases hheld.symm.trans hlive'
  exact NativeRuntime.run_callFunction_of_owns args session howns'

end Server

/-! ## A callback that outlives its runtime -/

namespace RecycledName

def tools : Path := ⟨["macros"], "Tools"⟩

def keep : Reference := ⟨tools, "keep"⟩

def crash : Reference := ⟨tools, "crash"⟩

def take : Reference := ⟨tools, "take"⟩

def note : Reference := ⟨tools, "note"⟩

def templates : Entries Path ModuleDef :=
  let takesFunction : Ty := .func [⟨"f", false, .func [] .dynamic⟩] .macroExpr
  let macroClass := { ClassDef.empty tools tools with
    statics := [.method "keep" takesFunction none, .method "crash" (.func [] .macroExpr) none,
      .method "take" takesFunction none] }
  [(tools, ⟨tools, [.classType macroClass]⟩)]

def natives : Natives Checker Host :=
  .ofScripts [(keep, [.ask (.addHook .onGenerate fun args => args.headD .null)]),
    (crash, [.abort "boom"]), (take, []), (note, [.traceArgs])]

def runtime : Runtime NativeState Checker Host :=
  NativeRuntime.make natives [] Stage.evaluationSteps

def begun : Server Unit NativeState Checker Host :=
  .start (fun _ => .new .default .new ⟨[], "Main"⟩) (fun _ => .empty)
    ⟨[], ⟨.new (Registry.bootstrapTemplates ++ templates) ⟨[], [], false, none⟩, []⟩⟩

def parsed (text : String) : Expr :=
  match Expr.parse text .null with
  | .ok e => e
  | .error _ => .null .null

def call (r : Reference) (args : List String) : ServerStep Unit Checker Host :=
  .request () (.invoke .program .expr r (args.map parsed) .null)

def callbacks : ServerStep Unit Checker Host := .request () (.runHooks .onGenerate [])

def kept : Server Unit NativeState Checker Host :=
  begun.run Checker.typer runtime [call keep ["function() return macros.Tools.note(1)"]]

def recycled : Server Unit NativeState Checker Host :=
  kept.run Checker.typer runtime
    [call crash [], call take ["function() return macros.Tools.note(2)"]]

def registered (s : Server Unit NativeState Checker Host) : List String :=
  ((s.compilations ()).shared.hooks.get .onGenerate).map EngineM.callbackName

def literal (s : Server Unit NativeState Checker Host) : Option FunctionDef :=
  s.engine.runtime.bind fun live => Entries.get? live.state.closures (closureName 0)

def bodyText (f : FunctionDef) : Option String := f.body.map Expr.text

def noted (s : Server Unit NativeState Checker Host) : List (List (Option Int64)) :=
  s.world.host.trace.filterMap fun entry =>
    match entry.answer with
    | .ok (.values vs) => some (vs.map Value.int?)
    | _ => none

/-- The callback was made from the first literal, and it runs the second one. -/
theorem callback_runs_other_literal :
    registered kept = [closureName 0] ∧
    (literal kept).map bodyText = some (some "return macros.Tools.note(1)") ∧
    (literal recycled).map bodyText = some (some "return macros.Tools.note(2)") ∧
    noted (recycled.step Checker.typer runtime callbacks) = [[some 2]] := by
  decide +kernel

def called : Server Unit NativeState Checker Host :=
  kept.run Checker.typer runtime [callbacks]

/-- Called before the runtime is given up, the callback runs the literal that it was made from, or
none. -/
theorem callback_runs_own_literal : ∃ live f,
    called.engine.runtime = some live ∧ bodyText f = some "return macros.Tools.note(1)" ∧
    ∀ args session,
      (runtime.callFunction (.function (closureName 0) 0) args).run (live.state, session) =
        (NativeRuntime.perform
          (Eval.callClosure (Eval.eval natives Stage.evaluationSteps) f args)).run
          (live.state, session) ∨
      ∃ name arity, Value.function (closureName 0) 0 = .function name arity ∧
        (runtime.callFunction (.function (closureName 0) 0) args).run (live.state, session) =
          (.error (.ofText ("Unknown function " ++ name)), live.state, session) := by
  have hliteral : (literal kept).map (fun f => (bodyText f, f.params.length)) =
      some (some "return macros.Tools.note(1)", 0) := by decide +kernel
  have hnext :
      kept.engine.runtime.any (fun live => decide (0 < live.state.nextClosure)) = true := by
    decide +kernel
  have hcalled : called.engine.runtime.isSome = true := by decide +kernel
  have hgeneration : ¬kept.engine.generation < called.engine.generation := by decide +kernel
  obtain ⟨f, hf, hfacts⟩ := Option.map_eq_some_iff.mp hliteral
  obtain ⟨live, hlive, hget⟩ := Option.bind_eq_some_iff.mp hf
  obtain ⟨live', hlive'⟩ := Option.isSome_iff_exists.mp hcalled
  obtain ⟨hbody, hparams⟩ := Prod.mk.inj hfacts
  have howns : live.state.Owns (.function (closureName 0) 0) f := by
    refine ⟨0, ?_, by rw [hparams], fun g hg => Option.some.inj (hg.symm.trans hget)⟩
    rw [hlive] at hnext
    exact of_decide_eq_true hnext
  obtain ⟨es, hhistory⟩ : ∃ es, Server.History runtime kept es called :=
    Server.history_run Checker.typer runtime kept [callbacks]
  have hcalls := (Server.closures_run_own_literal natives [] Stage.evaluationSteps).2.2 kept called
    es live live' _ f hhistory hlive howns hlive'
  exact ⟨live', f, hlive', hbody, hcalls.resolve_left hgeneration⟩

end RecycledName

end HaxeMacro
