import HaxeMacro.Evaluator.Native
import HaxeMacro.Proofs.Engine.Runs

/-! # Evaluation without steps

An evaluation that ends within some steps ends the same way when it is granted more. So it is
enough to say that an expression evaluates to something, in however many steps.
-/

namespace HaxeMacro

namespace Eval

variable {I G α β : Type} {natives : Natives I G}

def outOfSteps : Signal := .failure (.stopped .outOfFuel)

/-- Wherever `op` comes to an end within its steps, `op'` ends the same way. -/
def Extends (op op' : Eval I G α) : Prop :=
  ∀ s, (op.run s).1 ≠ .error outOfSteps → op'.run s = op.run s

/-- What follows the body of a loop, unless the body leaves the loop. -/
def afterBody (body rest : Eval I G Value) : Eval I G Value := fun s =>
  match body.run s with
  | (.ok _, t) | (.error .cont, t) => rest.run t
  | (.error .brk, t) => (.ok .null, t)
  | (.error signal, t) => (.error signal, t)

theorem iterate_succ (body test : Eval I G Value) (steps : Nat) :
    iterate body test (steps + 1) = afterBody body (do
      if (← test).isTruthy then iterate body test steps else return .null) := by
  funext s
  unfold afterBody
  rw [iterate]
  dsimp only
  rcases hbody : body.run s with ⟨(_ | _ | _ | _) | _, t⟩
  any_goals rfl
  -- The body has come to its end, and the test follows.
  all_goals
    dsimp only
    rcases htest : test.run t with ⟨signal | v, u⟩
    · rw [run_bind_error htest]
    · rw [run_bind_ok htest]
      dsimp only
      split <;> rfl

namespace Extends

/-! ## Parts of evaluations -/

theorem refl (op : Eval I G α) : Extends op op := fun _ _ => rfl

theorem outOfSteps (op : Eval I G α) : Extends (throw outOfSteps) op := fun _ h => absurd rfl h

theorem bind {op op' : Eval I G α} {f f' : α → Eval I G β} (hop : Extends op op')
    (hf : ∀ a, Extends (f a) (f' a)) : Extends (op >>= f) (op' >>= f') := by
  intro s h
  rcases hrun : op.run s with ⟨signal | a, t⟩
  · have hne : signal ≠ Eval.outOfSteps := by
      rintro rfl
      rw [run_bind_error hrun] at h
      exact h rfl
    have hrun' := hop s (by simpa [hrun] using hne)
    rw [run_bind_error hrun, run_bind_error (hrun'.trans hrun)]
  · have hrun' := hop s (by simp [hrun])
    rw [run_bind_ok hrun] at h ⊢
    rw [run_bind_ok (hrun'.trans hrun)]
    exact hf a t h

theorem get {f f' : EvalState I G → Eval I G α} (hf : ∀ s, Extends (f s) (f' s)) :
    Extends (do f (← get)) (do f' (← get)) := fun s => hf s s

theorem mapM (as : List α) {f f' : α → Eval I G β} (hf : ∀ a, Extends (f a) (f' a)) :
    Extends (as.mapM f) (as.mapM f') := by
  induction as with
  | nil => exact refl _
  | cons a as ih =>
    rw [List.mapM_cons, List.mapM_cons]
    exact bind (hf a) fun _ => bind ih fun _ => refl _

theorem forM (as : List α) {f f' : α → Eval I G PUnit} (hf : ∀ a, Extends (f a) (f' a)) :
    Extends (as.forM f) (as.forM f') := by
  induction as with
  | nil => exact refl _
  | cons a as ih => exact bind (hf a) fun _ => ih

/-! ## Bodies and loops -/

theorem endOfBody_ne {r : Except Signal Value} (h : endOfBody r ≠ .error Eval.outOfSteps) :
    r ≠ .error Eval.outOfSteps := by
  rintro rfl
  exact h rfl

theorem inBody (env : Env) {body body' : Eval I G Value} (h : Extends body body') :
    Extends (inBody env body) (inBody env body') := by
  intro s hne
  have hrun := h { s with env } (endOfBody_ne hne)
  unfold Eval.inBody
  simp only [ExceptT.run] at hrun ⊢
  rw [hrun]

theorem inScope {body body' : Eval I G α} (h : Extends body body') :
    Extends (inScope body) (inScope body') := by
  intro s hne
  have hrun := h { s with env := s.env.enter } hne
  unfold Eval.inScope
  simp only [ExceptT.run] at hrun ⊢
  rw [hrun]

theorem afterBody {body body' rest rest' : Eval I G Value} (hbody : Extends body body')
    (hrest : Extends rest rest') : Extends (afterBody body rest) (afterBody body' rest') := by
  intro s h
  unfold Eval.afterBody at h ⊢
  simp only [ExceptT.run] at h ⊢
  have hrun := hbody s
  simp only [ExceptT.run] at hrun
  rcases hb : body s with ⟨(v | _ | _ | f) | v, t⟩ <;> rw [hb] at h hrun
  · rw [hrun h]
  · rw [hrun (by simp [Eval.outOfSteps])]
  · rw [hrun (by simp [Eval.outOfSteps])]
    exact hrest t h
  · rw [hrun h]
  · rw [hrun (by simp)]
    exact hrest t h

theorem iterate {body body' test test' : Eval I G Value} (hbody : Extends body body')
    (htest : Extends test test') {n m : Nat} (hnm : n ≤ m) :
    Extends (iterate body test n) (iterate body' test' m) := by
  induction n generalizing m with
  | zero => exact outOfSteps _
  | succ n ih =>
    obtain ⟨m, rfl⟩ : ∃ k, m = k + 1 := ⟨m - 1, by omega⟩
    rw [iterate_succ, iterate_succ]
    refine afterBody hbody (bind htest fun v => ?_)
    split
    · exact ih (by omega)
    · exact refl _

theorem sequence {run run' : Expr → Eval I G Value} (hrun : ∀ e, Extends (run e) (run' e))
    (es : List Expr) (last : Value) : Extends (sequence run es last) (sequence run' es last) := by
  induction es generalizing last with
  | nil => exact refl _
  | cons e es ih => exact bind (hrun e) fun v => ih v

theorem assignTo (op : Option BinaryOp) (target : Expr) {right right' : Eval I G Value}
    (h : Extends right right') : Extends (assignTo op target right) (assignTo op target right') := by
  unfold Eval.assignTo
  split
  · exact refl _
  · exact bind h fun _ => refl _

/-! ## Calls -/

variable {run run' : Expr → Eval I G Value} (hrun : ∀ e, Extends (run e) (run' e))
include hrun

theorem bindParams (params : List Param) (args : List Value) (env : Env) :
    Extends (bindParams run params args env) (bindParams run' params args env) := by
  induction params generalizing args env with
  | nil => exact refl _
  | cons p ps ih =>
    cases args with
    | cons v vs => exact ih vs _
    | nil =>
      unfold Eval.bindParams
      cases p.default with
      | none => exact bind (refl _) fun _ => ih [] _
      | some e => exact bind (inBody .empty (hrun e)) fun _ => ih [] _

theorem callClosure (f : FunctionDef) (args : List Value) :
    Extends (callClosure run f args) (callClosure run' f args) := by
  refine bind (bindParams hrun f.params args .empty) fun env => ?_
  cases f.body with
  | none => exact refl _
  | some body => exact bind (inBody env (hrun body)) fun _ => refl _

theorem callFunction (f : Value) (args : List Value) :
    Extends (callFunction natives run f args) (callFunction natives run' f args) := by
  unfold Eval.callFunction
  split
  · apply get
    intro s
    split
    · exact callClosure hrun _ args
    · exact refl _
  · exact refl _

/-! ## Expressions -/

omit hrun in
theorem eval {n m : Nat} (hnm : n ≤ m) (e : Expr) :
    Extends (eval natives n e) (eval natives m e) := by
  induction n generalizing m e with
  | zero => exact outOfSteps _
  | succ n ih =>
    obtain ⟨m, rfl⟩ : ∃ k, m = k + 1 := ⟨m - 1, by omega⟩
    have hrun (e : Expr) : Extends (Eval.eval natives n e) (Eval.eval natives m e) :=
      ih (by omega) e
    unfold Eval.eval
    dsimp only
    split
    · exact refl _
    · exact refl _
    · exact hrun _
    · exact hrun _
    · exact hrun _
    · exact hrun _
    · exact bind (mapM _ hrun) fun _ => refl _
    · exact bind (mapM _ fun f => bind (hrun f.value) fun _ => refl _) fun _ => refl _
    · exact bind (hrun _) fun _ => refl _
    · split
      · exact assignTo _ _ (hrun _)
      · exact bind (hrun _) fun _ => bind (hrun _) fun _ => refl _
    · exact bind (hrun _) fun _ => by split <;> exact hrun _
    · exact bind (hrun _) fun _ => by split <;> exact hrun _
    · refine bind (hrun _) fun v => ?_
      split
      · exact bind (hrun _) fun _ => refl _
      · exact refl _
    · have hloop (enters : Bool) (test body : Expr) : Extends
          (if enters then
            Eval.iterate (Eval.eval natives n body) (Eval.eval natives n test) n
          else return .null)
          (if enters then
            Eval.iterate (Eval.eval natives m body) (Eval.eval natives m test) m
          else return .null) := by
        split
        · exact iterate (hrun body) (hrun test) (by omega)
        · exact refl _
      split
      · exact bind (hrun _) fun _ => hloop _ _ _
      · exact hloop true _ _
    · exact refl _
    · exact refl _
    · exact refl _
    · exact bind (hrun _) fun _ => refl _
    · split
      · exact refl _
      · exact bind (hrun _) fun _ => refl _
    · exact refl _
    · exact inScope (sequence hrun _ _)
    · refine bind (forM _ fun v => ?_) fun _ => refl _
      cases v.init with
      | none => exact refl _
      | some init => exact bind (hrun init) fun _ => refl _
    · refine bind (hrun _) fun f => bind (mapM _ hrun) fun values => ?_
      exact bind (callFunction hrun f values) fun _ => refl _
    · exact bind (hrun _) fun _ => refl _
    · exact refl _

end Extends

/-! ## Results -/

/-- With enough steps the expression ends with `r`, and leaves the state `t`. -/
def Evaluates (natives : Natives I G) (e : Expr) (s : EvalState I G) (r : Except Signal Value)
    (t : EvalState I G) : Prop :=
  r ≠ .error outOfSteps ∧ ∃ steps, (eval natives steps e).run s = (r, t)

namespace Evaluates

variable {e : Expr} {s t t' : EvalState I G} {r r' : Except Signal Value}

theorem run_of_le (hr : r ≠ .error outOfSteps) {n m : Nat} (hnm : n ≤ m)
    (hrun : (eval natives n e).run s = (r, t)) : (eval natives m e).run s = (r, t) := by
  rw [Extends.eval hnm e s (by simpa [hrun] using hr), hrun]

theorem unique (h : Evaluates natives e s r t) (h' : Evaluates natives e s r' t') :
    r = r' ∧ t = t' := by
  obtain ⟨hr, n, hn⟩ := h
  obtain ⟨hr', m, hm⟩ := h'
  have hleft := run_of_le hr (Nat.le_max_left n m) hn
  have hright := run_of_le hr' (Nat.le_max_right n m) hm
  exact Prod.mk.inj (hleft.symm.trans hright)

end Evaluates

end Eval

end HaxeMacro
