import HaxeMacro.Evaluator.Native
import HaxeMacro.Proofs.Engine.Runs

/-! # Transitions of evaluations

An evaluation changes its state in few ways: it makes a closure, declares or assigns a variable,
enters and leaves a scope, or has a method work on the session. A relation that admits these holds
between the state before any evaluation and the state after it, however the evaluation ends.
-/

namespace HaxeMacro

namespace Eval

variable {I G α β : Type}

/-- What evaluations may do to a state: to do nothing, one thing after the other, or one of the
changes that they consist of. -/
structure Transitions (rel : EvalState I G → EvalState I G → Prop) : Prop where
  refl : ∀ s, rel s s
  trans : ∀ {a b c}, rel a b → rel b c → rel a c
  closure : ∀ {s f v runtime}, s.runtime.addClosure f = .ok (v, runtime) → rel s { s with runtime }
  declare : ∀ s name v, rel s { s with env := s.env.declare name v }
  assign : ∀ {s name v env}, s.env.assign? name v = some env → rel s { s with env }
  scope : ∀ {s t}, rel { s with env := s.env.enter } t → rel s { t with env := t.env.leave }
  body : ∀ {s t} env, rel { s with env } t → rel s { t with env := s.env }

variable {rel : EvalState I G → EvalState I G → Prop}

/-- However the evaluation ends, the state after it is related to the state before. -/
def Leads (rel : EvalState I G → EvalState I G → Prop) (op : Eval I G α) : Prop :=
  ∀ s, rel s (op.run s).2

namespace Leads

variable (h : Transitions rel)
include h

/-! ## Parts of evaluations -/

theorem pure (a : α) : Leads rel (pure a : Eval I G α) := fun _ => h.refl _

theorem throw (signal : Signal) : Leads rel (throw signal : Eval I G α) := fun _ => h.refl _

theorem bind {op : Eval I G α} {f : α → Eval I G β} (hop : Leads rel op)
    (hf : ∀ a, Leads rel (f a)) : Leads rel (op >>= f) := by
  intro s
  have hs := hop s
  rcases hrun : op.run s with ⟨signal | a, s'⟩ <;> rw [hrun] at hs
  · rw [run_bind_error hrun]
    exact hs
  · rw [run_bind_ok hrun]
    exact h.trans hs (hf a s')

omit h in
theorem get {f : EvalState I G → Eval I G α}
    (hf : ∀ s, rel s ((f s).run s).2) :
    Leads rel (do f (← get)) := hf

theorem mapM (as : List α) {f : α → Eval I G β} (hf : ∀ a, Leads rel (f a)) :
    Leads rel (as.mapM f) := by
  induction as with
  | nil => exact pure h []
  | cons a as ih =>
    rw [List.mapM_cons]
    exact bind h (hf a) fun _ => bind h ih fun _ => pure h _

theorem forM (as : List α) {f : α → Eval I G PUnit} (hf : ∀ a, Leads rel (f a)) :
    Leads rel (as.forM f) := by
  induction as with
  | nil => exact pure h _
  | cons a as ih => exact bind h (hf a) fun _ => ih

theorem ofResult (result : Except Fault α) : Leads rel (ofResult result : Eval I G α) := by
  cases result with
  | ok a => exact pure h a
  | error fault => exact throw h _

/-! ## Variables -/

theorem declare (name : String) (v : Value) : Leads rel (declare name v : Eval I G Unit) :=
  fun s => h.declare s name v

theorem lookUp (name : String) : Leads rel (lookUp name : Eval I G Value) := by
  refine Leads.get fun s => ?_
  split <;> exact h.refl _

theorem assign (name : String) (v : Value) : Leads rel (assign name v : Eval I G Unit) := by
  refine Leads.get fun s => ?_
  split
  · rename_i hassigned
    exact h.assign hassigned
  · exact h.refl _

theorem identifier (name : String) : Leads rel (identifier name : Eval I G Value) := by
  unfold Eval.identifier
  split
  · exact pure h _
  · exact lookUp h name

/-! ## Operators and loops -/

theorem applyPrefix (op : UnaryOp) (v : Value) :
    Leads rel (applyPrefix op v : Eval I G Value) := by
  unfold Eval.applyPrefix
  split
  · exact ofResult h _
  · exact pure h _
  · exact pure h _
  · exact pure h _
  · exact throw h _

theorem assignTo (op : Option BinaryOp) (target : Expr) {right : Eval I G Value}
    (hright : Leads rel right) : Leads rel (assignTo op target right) := by
  unfold Eval.assignTo
  cases target.ident? with
  | none => exact throw h _
  | some name =>
    have hassign (v : Value) : Leads rel (do Eval.assign name v; return v) :=
      bind h (assign h name v) fun _ => pure h v
    refine bind h hright fun v => ?_
    cases op with
    | none => exact bind h (pure h v) hassign
    | some op => exact bind h (lookUp h name) fun _ => bind h (ofResult h _) hassign

theorem iterate {body test : Eval I G Value} (hbody : Leads rel body) (htest : Leads rel test)
    (steps : Nat) : Leads rel (iterate body test steps) := by
  induction steps with
  | zero => exact throw h _
  | succ steps ih =>
    intro s
    have hs := hbody s
    rw [ExceptT.run, Eval.iterate]
    dsimp only
    rcases hrun : body.run s with ⟨(v | _ | _ | f) | v, s'⟩ <;> rw [hrun] at hs
    any_goals exact hs
    -- The test comes after the body, unless the body leaves the loop.
    all_goals
      refine h.trans hs ?_
      have hs' := htest s'
      dsimp only
      rcases htested : test.run s' with ⟨signal | v, s''⟩ <;> rw [htested] at hs'
      · exact hs'
      · dsimp only
        split
        · exact h.trans hs' (ih s'')
        · exact hs'

theorem sequence {run : Expr → Eval I G Value} (hrun : ∀ e, Leads rel (run e)) (es : List Expr)
    (last : Value) : Leads rel (sequence run es last) := by
  induction es generalizing last with
  | nil => exact pure h last
  | cons e es ih => exact bind h (hrun e) fun v => ih v

theorem inBody (env : Env) {body : Eval I G Value} (hbody : Leads rel body) :
    Leads rel (inBody env body) := fun s => h.body env (hbody { s with env })

theorem inScope {body : Eval I G α} (hbody : Leads rel body) : Leads rel (inScope body) :=
  fun s => h.scope (hbody { s with env := s.env.enter })

/-! ## Calls -/

theorem makeClosure (f : FunctionDef) : Leads rel (makeClosure f : Eval I G Value) := by
  intro s
  rw [ExceptT.run, Eval.makeClosure]
  cases hadd : s.runtime.addClosure f with
  | ok made => exact h.closure hadd
  | error stop => exact h.refl s

variable {natives : Natives I G}
  (hnatives : ∀ p ∈ natives, ∀ args s, rel s { s with session := ((p.2 args).run s.session).2 })

include hnatives in
theorem callNative (r : Reference) (args : List Value) : Leads rel (callNative natives r args) := by
  intro s
  rw [ExceptT.run, Eval.callNative]
  cases hmethod : Entries.get? natives r with
  | none => exact h.refl _
  | some method => exact hnatives _ (Entries.mem_of_get? hmethod) args s

theorem bindParams {run : Expr → Eval I G Value} (hrun : ∀ e, Leads rel (run e))
    (params : List Param) (args : List Value) (env : Env) :
    Leads rel (bindParams run params args env) := by
  induction params generalizing args env with
  | nil => exact pure h env
  | cons p ps ih =>
    cases args with
    | cons v vs => exact ih vs _
    | nil =>
      unfold Eval.bindParams
      cases p.default with
      | none => exact bind h (pure h _) fun v => ih [] _
      | some e => exact bind h (inBody h .empty (hrun e)) fun v => ih [] _

theorem callClosure {run : Expr → Eval I G Value} (hrun : ∀ e, Leads rel (run e))
    (f : FunctionDef) (args : List Value) : Leads rel (callClosure run f args) := by
  refine bind h (bindParams h hrun f.params args .empty) fun env => ?_
  cases f.body with
  | none => exact pure h none
  | some body => exact bind h (inBody h env (hrun body)) fun _ => pure h _

include hnatives in
theorem callFunction {run : Expr → Eval I G Value} (hrun : ∀ e, Leads rel (run e)) (f : Value)
    (args : List Value) : Leads rel (callFunction natives run f args) := by
  unfold Eval.callFunction
  split
  · refine Leads.get fun s => ?_
    split
    · exact callClosure h hrun _ args s
    · split
      · exact callNative h hnatives _ args s
      · exact throw h _ s
  · exact throw h _

/-! ## Expressions -/

include hnatives in
theorem eval (steps : Nat) (e : Expr) : Leads rel (eval natives steps e) := by
  induction steps generalizing e with
  | zero => exact throw h _
  | succ steps ih =>
    have hcond (test yes no : Expr) : Leads rel (do
        if (← Eval.eval natives steps test).isTruthy then Eval.eval natives steps yes
        else Eval.eval natives steps no) := by
      refine bind h (ih test) fun v => ?_
      split
      · exact ih yes
      · exact ih no
    unfold Eval.eval
    dsimp only
    split
    · exact identifier h _
    · exact ofResult h _
    · exact ih _
    · exact ih _
    · exact ih _
    · exact ih _
    · exact bind h (mapM h _ ih) fun _ => pure h _
    · exact bind h (mapM h _ fun f => bind h (ih f.value) fun _ => pure h _) fun _ => pure h _
    · exact bind h (ih _) fun _ => applyPrefix h _ _
    · split
      · exact assignTo h _ _ (ih _)
      · exact bind h (ih _) fun _ => bind h (ih _) fun _ => ofResult h _
    · exact hcond _ _ _
    · exact hcond _ _ _
    · refine bind h (ih _) fun v => ?_
      split
      · exact bind h (ih _) fun _ => pure h _
      · exact pure h _
    · have hloop (enters : Bool) (test body : Expr) : Leads rel (if enters then
          Eval.iterate (Eval.eval natives steps body) (Eval.eval natives steps test) steps
        else return .null) := by
        split
        · exact iterate h (ih body) (ih test) steps
        · exact pure h _
      split
      · exact bind h (ih _) fun _ => bind h (pure h _) fun enters => hloop enters _ _
      · exact bind h (pure h _) fun enters => hloop enters _ _
    · exact throw h _
    · exact throw h _
    · exact throw h _
    · exact bind h (ih _) fun _ => throw h _
    · split
      · exact pure h _
      · refine bind h (ih _) fun v => ?_
        split
        · exact pure h _
        · exact throw h _
    · exact makeClosure h _
    · exact inScope h (sequence h ih _ _)
    · refine bind h (forM h _ fun v => ?_) fun _ => pure h _
      cases v.init with
      | none => exact bind h (pure h _) fun _ => declare h _ _
      | some init => exact bind h (ih init) fun _ => declare h _ _
    · refine bind h (ih _) fun f => bind h (mapM h _ ih) fun values => ?_
      exact bind h (callFunction h hnatives ih f values) fun _ => pure h _
    · exact bind h (ih _) fun _ => throw h _
    · exact throw h _

end Leads

end Eval

end HaxeMacro
