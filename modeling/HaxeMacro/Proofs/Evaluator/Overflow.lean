import HaxeMacro.Fragment.Equality
import HaxeMacro.Proofs.Evaluator.Constants

/-! # Where arithmetic gives up

Whole numbers wrap around, but not everywhere: a negation and a remainder that leave their range end
the whole computation, for folded constants as for expressions that are evaluated. No other operator
overflows. Limits of memory are left out.
-/

namespace HaxeMacro

variable {I G α β : Type}

namespace Eval

def Stops (op : Eval I G α) (s : EvalState I G) (stop : Stop) : Prop :=
  (op.run s).1 = .error (.failure (.stopped stop))

section

variable {s : EvalState I G} {stop : Stop}

/-! ## Parts of evaluations -/

theorem stops_pure {a : α} : ¬Stops (pure a : Eval I G α) s stop := nofun

theorem stops_raise {message : String} : ¬Stops (raise message : Eval I G α) s stop := nofun

theorem stops_ofResult_iff {result : Except Fault α} :
    Stops (ofResult result : Eval I G α) s stop ↔ result = .error (.stopped stop) := by
  cases result with
  | ok a => exact ⟨nofun, nofun⟩
  | error fault =>
    cases fault with
    | error e => exact ⟨nofun, nofun⟩
    | stopped stop' =>
      refine ⟨fun h => ?_, fun h => ?_⟩
      · cases h
        rfl
      · cases h
        rfl

theorem stops_bind_iff {op : Eval I G α} {f : α → Eval I G β} :
    Stops (op >>= f) s stop ↔
      Stops op s stop ∨ ∃ a s', op.run s = (.ok a, s') ∧ Stops (f a) s' stop := by
  constructor
  · intro h
    rcases hrun : op.run s with ⟨signal | a, s'⟩
    · rw [Stops, run_bind_error hrun] at h
      left
      cases h
      rw [Stops, hrun]
    · rw [Stops, run_bind_ok hrun] at h
      exact .inr ⟨a, s', rfl, h⟩
  · rintro (h | ⟨a, s', hrun, h⟩)
    · rcases hrun : op.run s with ⟨signal | a, s'⟩
      · rw [Stops, hrun] at h
        cases h
        rw [Stops, run_bind_error hrun]
      · rw [Stops, hrun] at h
        cases h
    · rwa [Stops, run_bind_ok hrun]

theorem stops_lookUp {name : String} : ¬Stops (lookUp name : Eval I G Value) s stop := by
  have hrun : (lookUp name : Eval I G Value).run s = _ := run_bind_ok rfl
  rw [Stops, hrun]
  split <;> nofun

theorem run_lookUp_iff {name : String} {a : Value} {s' : EvalState I G} :
    (lookUp name).run s = (.ok a, s') ↔ s.env.get? name = some a ∧ s' = s := by
  have hrun : (lookUp name : Eval I G Value).run s = _ := run_bind_ok rfl
  rw [hrun]
  cases s.env.get? name with
  | none => exact ⟨nofun, nofun⟩
  | some v =>
    refine ⟨fun h => ?_, ?_⟩
    · cases h
      exact ⟨rfl, rfl⟩
    · rintro ⟨h, rfl⟩
      cases h
      rfl

theorem stops_assign {name : String} {v : Value} :
    ¬Stops (assign name v : Eval I G Unit) s stop := by
  have hrun : (assign name v : Eval I G Unit).run s = _ := run_bind_ok rfl
  rw [Stops, hrun]
  split <;> nofun

/-! ## Operators on values -/

theorem stops_applyPrefix_iff {op : UnaryOp} {v : Value} :
    Stops (applyPrefix op v : Eval I G Value) s stop ↔ stop = .overflow ∧ op.Overflows v := by
  cases op with
  | neg =>
    cases v with
    | int i =>
      have hnegate : (applyPrefix .neg (.int i) : Eval I G Value) =
        ofResult (UnaryOp.applyToConstant .neg (.int i) .null) := rfl
      rw [hnegate, stops_ofResult_iff, UnaryOp.applyToConstant_eq_stopped_iff]
    | float x => exact iff_of_false stops_pure (by simp [UnaryOp.Overflows])
    | _ => exact iff_of_false stops_raise (by simp [UnaryOp.Overflows])
  | not => exact iff_of_false stops_pure (by simp [UnaryOp.Overflows])
  | negBits =>
    cases v with
    | int i => exact iff_of_false stops_pure (by simp [UnaryOp.Overflows])
    | _ => exact iff_of_false stops_raise (by simp [UnaryOp.Overflows])
  | _ => exact iff_of_false stops_raise (by simp [UnaryOp.Overflows])

theorem stops_assignTo_iff {op : Option BinaryOp} {target : Expr} {right : Eval I G Value} :
    Stops (assignTo op target right) s stop ↔ ∃ name, target.ident? = some name ∧
      (Stops right s stop ∨ ∃ applied, op = some applied ∧ ∃ b s', right.run s = (.ok b, s') ∧
        ∃ a, s'.env.get? name = some a ∧ stop = .overflow ∧ applied.Overflows a b) := by
  unfold assignTo
  cases target.ident? with
  | none => simp [stops_raise]
  | some name =>
    have hassign (v : Value) (s : EvalState I G) :
        ¬Stops (do assign name v; return v : Eval I G Value) s stop := by
      simp only [stops_bind_iff, stops_assign, stops_pure, and_false, exists_false, or_false,
        not_false_eq_true]
    cases op with
    | none => simp [stops_bind_iff, hassign, -bind_pure_comp]
    | some op =>
      simp [stops_bind_iff, stops_lookUp, run_lookUp_iff, stops_ofResult_iff, hassign,
        Value.applyBinary_eq_stopped_iff, -bind_pure_comp]

/-! ## Operators in expressions -/

variable (natives : Natives I G) (steps : Nat)

/-- What makes the evaluation of an operator give up: one of its operands, or an overflow. -/
inductive OperatorStops (s : EvalState I G) : ExprKind → Stop → Prop
  | operand {op : UnaryOp} {operand : Expr} {stop : Stop}
    (h : Stops (eval natives steps operand) s stop) : OperatorStops s (.unary op false operand) stop
  | negation {op : UnaryOp} {operand : Expr} {v : Value} {s' : EvalState I G}
    (hoperand : (eval natives steps operand).run s = (.ok v, s')) (h : op.Overflows v) :
    OperatorStops s (.unary op false operand) .overflow
  | left {op : BinaryOp} {left right : Expr} {stop : Stop} (hop : assignedBy op = none)
    (h : Stops (eval natives steps left) s stop) : OperatorStops s (.binary op left right) stop
  | right {op : BinaryOp} {left right : Expr} {a : Value} {s' : EvalState I G} {stop : Stop}
    (hop : assignedBy op = none) (hleft : (eval natives steps left).run s = (.ok a, s'))
    (h : Stops (eval natives steps right) s' stop) : OperatorStops s (.binary op left right) stop
  | remainder {op : BinaryOp} {left right : Expr} {a b : Value} {s' s'' : EvalState I G}
    (hop : assignedBy op = none) (hleft : (eval natives steps left).run s = (.ok a, s'))
    (hright : (eval natives steps right).run s' = (.ok b, s'')) (h : op.Overflows a b) :
    OperatorStops s (.binary op left right) .overflow
  | assigned {op : BinaryOp} {target right : Expr} {name : String} {inner : Option BinaryOp}
    {stop : Stop} (hop : assignedBy op = some inner) (htarget : target.ident? = some name)
    (h : Stops (eval natives steps right) s stop) : OperatorStops s (.binary op target right) stop
  | assignedRemainder {op inner : BinaryOp} {target right : Expr} {name : String} {a b : Value}
    {s' : EvalState I G} (hop : assignedBy op = some (some inner))
    (htarget : target.ident? = some name)
    (hright : (eval natives steps right).run s = (.ok b, s')) (ha : s'.env.get? name = some a)
    (h : inner.Overflows a b) : OperatorStops s (.binary op target right) .overflow

theorem stops_unary_iff {op : UnaryOp} {after : Bool} {operand : Expr} {pos : Position} :
    Stops (eval natives (steps + 1) ⟨.unary op after operand, pos⟩) s stop ↔
      OperatorStops natives steps s (.unary op after operand) stop := by
  cases after with
  | true => exact iff_of_false stops_raise nofun
  | false =>
    change Stops (eval natives steps operand >>= applyPrefix op) s stop ↔ _
    rw [stops_bind_iff]
    constructor
    · rintro (h | ⟨v, s', hrun, h⟩)
      · exact .operand h
      · obtain ⟨rfl, hoverflows⟩ := stops_applyPrefix_iff.mp h
        exact .negation hrun hoverflows
    · rintro (h | ⟨hrun, h⟩)
      · exact .inl h
      · exact .inr ⟨_, _, hrun, stops_applyPrefix_iff.mpr ⟨rfl, h⟩⟩

theorem stops_binary_iff {op : BinaryOp} {left right : Expr} {pos : Position} :
    Stops (eval natives (steps + 1) ⟨.binary op left right, pos⟩) s stop ↔
      OperatorStops natives steps s (.binary op left right) stop := by
  rw [eval]
  dsimp only
  cases hop : assignedBy op with
  | none =>
    simp only [stops_bind_iff, stops_ofResult_iff, Value.applyBinary_eq_stopped_iff]
    constructor
    · rintro (h | ⟨a, s₁, ha, h | ⟨b, s₂, hb, rfl, h⟩⟩)
      · exact .left hop h
      · exact .right hop ha h
      · exact .remainder hop ha hb h
    · intro h
      cases h with
      | left _ h => exact .inl h
      | right _ ha h => exact .inr ⟨_, _, ha, .inl h⟩
      | remainder _ ha hb h => exact .inr ⟨_, _, ha, .inr ⟨_, _, hb, rfl, h⟩⟩
      | assigned hop' | assignedRemainder hop' => cases hop.symm.trans hop'
  | some inner =>
    simp only [stops_assignTo_iff]
    constructor
    · rintro ⟨name, htarget, h | ⟨applied, rfl, b, s', hb, a, ha, rfl, h⟩⟩
      · exact .assigned hop htarget h
      · exact .assignedRemainder hop htarget hb ha h
    · intro h
      cases h with
      | left hop' | right hop' | remainder hop' => cases hop.symm.trans hop'
      | assigned _ htarget h => exact ⟨_, htarget, .inl h⟩
      | assignedRemainder hop' htarget hb ha h =>
        obtain rfl := Option.some.inj (hop.symm.trans hop')
        exact ⟨_, htarget, .inr ⟨_, rfl, _, _, hb, _, ha, rfl, h⟩⟩

end

end Eval

open Eval (Stops OperatorStops)

/-- Whole numbers overflow in two places only: at the negation of the least one, and at its
remainder when it is divided by -1. So it is for binary operators on values, for constants that are
folded, and for operators that are evaluated, where an operand may also give up. -/
theorem arithmetic_stops_iff (natives : Natives I G) :
    (∀ op left right pos stop, Value.applyBinary op left right pos = .error (.stopped stop) ↔
      stop = .overflow ∧ op.Overflows left right) ∧
    (∀ (e : Expr) stop, e.constant = .error (.stopped stop) ↔ stop = .overflow ∧ e.Overflows) ∧
    (∀ steps op after operand pos s stop,
      Stops (Eval.eval natives (steps + 1) ⟨.unary op after operand, pos⟩) s stop ↔
        OperatorStops natives steps s (.unary op after operand) stop) ∧
    ∀ steps op left right pos s stop,
      Stops (Eval.eval natives (steps + 1) ⟨.binary op left right, pos⟩) s stop ↔
        OperatorStops natives steps s (.binary op left right) stop :=
  ⟨fun _ _ _ _ _ => Value.applyBinary_eq_stopped_iff, fun _ _ => Expr.constant_eq_stopped_iff,
    fun steps _ _ _ _ _ _ => Eval.stops_unary_iff natives steps,
    fun steps _ _ _ _ _ _ => Eval.stops_binary_iff natives steps⟩

namespace LeastNumber

/-- The expression `-9223372036854775808 % -1`, as it is read. -/
def remainder : Expr :=
  ⟨.binary .mod (.int "-9223372036854775808" ⟨0, 0, 20⟩) (.int "-1" ⟨0, 23, 25⟩), ⟨0, 0, 25⟩⟩

/-- Divided by -1, the least whole number leaves no remainder but a computation that is given up,
whether it is folded or evaluated. -/
theorem remainder_stops :
    (Expr.parse "-9223372036854775808 % -1" ⟨0, 0, 0⟩).toOption.any (· == remainder) = true ∧
    remainder.constant = .error (.stopped .overflow) ∧
    ∀ s : EvalState Unit Unit, Stops (Eval.eval [] 2 remainder) s .overflow := by
  have hleast (pos : Position) : (Expr.int "-9223372036854775808" pos).constant =
    .ok (.int Int64.minValue) := rfl
  have hminusOne (pos : Position) : (Expr.int "-1" pos).constant = .ok (.int (-1)) := rfl
  have hover : BinaryOp.mod.Overflows (.int Int64.minValue) (.int (-1)) := ⟨rfl, rfl, rfl⟩
  have hliteral {text : String} {pos : Position} {v : Value} (s : EvalState Unit Unit)
      (h : (Expr.int text pos).constant = .ok v) :
      (Eval.eval [] 1 (.int text pos)).run s = (.ok v, s) := by
    change (Eval.ofResult (Expr.int text pos).constant).run s = _
    rw [h]
    rfl
  have hread : (Expr.parse "-9223372036854775808 % -1" ⟨0, 0, 0⟩).toOption.any (· == remainder) =
    true := by decide +kernel
  refine ⟨hread, (Expr.Overflows.remainder (hleast _) (hminusOne _) hover).constant_eq, ?_⟩
  intro s
  exact (Eval.stops_binary_iff [] 1).mpr
    (.remainder rfl (hliteral s (hleast _)) (hliteral s (hminusOne _)) hover)

end LeastNumber

end HaxeMacro
