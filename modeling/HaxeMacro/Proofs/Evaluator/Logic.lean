import HaxeMacro.Fragment.Equality
import HaxeMacro.Proofs.Evaluator.Steps

/-! # Logical operators

The evaluator has no operator that skips its right operand. A left operand that decides the value
does so only once the right one has come to a value too.
-/

namespace HaxeMacro

namespace Eval

variable {I G : Type} {natives : Natives I G} {op : BinaryOp} {a b : Expr} {pos : Position}
  {s t u : EvalState I G} {v answer : Value} {r : Except Signal Value}

/-- Whatever stands on the right of the operator, its value is `answer` when `v` stands on the
left. -/
inductive Decides : BinaryOp → Value → Value → Prop where
  | boolAnd {v : Value} (h : v.isTruthy = false) : Decides .boolAnd v (.bool false)
  | boolOr {v : Value} (h : v.isTruthy = true) : Decides .boolOr v (.bool true)
  | nullCoal {v : Value} (h : v.isNull = false) : Decides .nullCoal v v

theorem Decides.applyBinary (h : Decides op v answer) (w : Value) (pos : Position) :
    Value.applyBinary op v w pos = .ok answer := by
  cases h with
  | boolAnd h | boolOr h | nullCoal h => simp [Value.applyBinary, h]

theorem Decides.assignedBy (h : Decides op v answer) : assignedBy op = none := by
  cases h <;> rfl

theorem eval_binary (h : assignedBy op = none) (steps : Nat) :
    eval natives (steps + 1) ⟨.binary op a b, pos⟩ = (do
      let l ← eval natives steps a
      let r ← eval natives steps b
      ofResult (Value.applyBinary op l r pos)) := by
  simp only [eval, h]

theorem run_binary_decided (h : Decides op v answer) {steps : Nat}
    (ha : (eval natives steps a).run s = (.ok v, t)) :
    (eval natives (steps + 1) ⟨.binary op a b, pos⟩).run s =
      (((eval natives steps b).run t).1.map fun _ => answer, ((eval natives steps b).run t).2) := by
  rw [eval_binary h.assignedBy, run_bind_ok ha]
  rcases hb : (eval natives steps b).run t with ⟨signal | w, u⟩
  · rw [run_bind_error hb]
    rfl
  · rw [run_bind_ok hb, h.applyBinary]
    rfl

theorem map_ne_outOfSteps_iff {rb : Except Signal Value} {f : Value → Value} :
    rb.map f ≠ .error outOfSteps ↔ rb ≠ .error outOfSteps := by
  cases rb <;> simp [Except.map]

/-- Where the left operand decides the value of a logical operator, the operator still evaluates the
right operand, in the state that the left one leaves. It comes to the value that is decided exactly
if the right operand comes to a value, and else it ends as the right operand does. -/
theorem evaluates_decided_iff (h : Decides op v answer) (ha : Evaluates natives a s (.ok v) t) :
    Evaluates natives ⟨.binary op a b, pos⟩ s r u ↔
      ∃ rb, Evaluates natives b t rb u ∧ r = rb.map fun _ => answer := by
  constructor
  · rintro ⟨hr, steps, hrun⟩
    obtain ⟨steps, rfl⟩ : ∃ k, steps = k + 1 := by
      cases steps with
      | zero => exact absurd (congrArg Prod.fst hrun).symm hr
      | succ k => exact ⟨k, rfl⟩
    have hleft : (eval natives steps a).run s = (.ok v, t) := by
      rcases hl : (eval natives steps a).run s with ⟨rl, t'⟩
      have hrl : rl ≠ .error outOfSteps := by
        rintro rfl
        rw [eval_binary h.assignedBy, run_bind_error hl] at hrun
        exact hr (congrArg Prod.fst hrun).symm
      obtain ⟨rfl, rfl⟩ := ha.unique ⟨hrl, steps, hl⟩
      rfl
    rw [run_binary_decided h hleft] at hrun
    obtain ⟨rfl, rfl⟩ := Prod.mk.inj hrun
    exact ⟨_, ⟨map_ne_outOfSteps_iff.mp hr, steps, rfl⟩, rfl⟩
  · rintro ⟨rb, ⟨hrb, m, hb⟩, rfl⟩
    obtain ⟨hv, n, ha⟩ := ha
    have ha' := Evaluates.run_of_le hv (Nat.le_max_left n m) ha
    have hb' := Evaluates.run_of_le hrb (Nat.le_max_right n m) hb
    refine ⟨map_ne_outOfSteps_iff.mpr hrb, max n m + 1, ?_⟩
    rw [run_binary_decided h ha', hb']

end Eval

namespace RightOperand

def start : EvalState Unit Unit :=
  ⟨[[("x", .int 1)]], .new 0, ⟨.new .default () ⟨[], "Main"⟩, ⟨[], ()⟩, .null, "run"⟩⟩

def two : Expr := .int "2" ⟨0, 0, 1⟩

def assignment : Expr :=
  ⟨.paren ⟨.binary .assign (.ident "x" ⟨0, 6, 7⟩) (.int "3" ⟨0, 10, 11⟩), ⟨0, 6, 11⟩⟩, ⟨0, 5, 12⟩⟩

/-- The expression `2 ?? (x = 3)`, as it is read. -/
def coalescence : Expr := ⟨.binary .nullCoal two assignment, ⟨0, 0, 12⟩⟩

theorem evaluates_coalescence :
    (Expr.parse "2 ?? (x = 3)" ⟨0, 0, 0⟩).toOption.any (· == coalescence) = true ∧
    Eval.Evaluates [] coalescence start (.ok (.int 2)) { start with env := [[("x", .int 3)]] } := by
  have hread : (Expr.parse "2 ?? (x = 3)" ⟨0, 0, 0⟩).toOption.any (· == coalescence) = true := by
    decide +kernel
  have hleft : Eval.Evaluates [] two start (.ok (.int 2)) start := ⟨by simp, 1, rfl⟩
  have hright : Eval.Evaluates [] assignment start (.ok (.int 3))
      { start with env := [[("x", .int 3)]] } :=
    ⟨by simp, 3, rfl⟩
  exact ⟨hread, (Eval.evaluates_decided_iff (.nullCoal rfl) hleft).mpr ⟨_, hright, rfl⟩⟩

def no : Expr := .ident "false" ⟨0, 0, 5⟩

/-- The expression `false && throw 'boom'`, as it is read. -/
def conjunction : Expr :=
  ⟨.binary .boolAnd no ⟨.throw ⟨.const (.string "boom" .single), ⟨0, 15, 21⟩⟩, ⟨0, 9, 21⟩⟩,
    ⟨0, 0, 21⟩⟩

/-- The left operand is false, but the conjunction has no value. -/
theorem not_evaluates_conjunction :
    (Expr.parse "false && throw 'boom'" ⟨0, 0, 0⟩).toOption.any (· == conjunction) = true ∧
    Eval.Evaluates [] no start (.ok (.bool false)) start ∧
    ¬ Eval.Evaluates [] conjunction start (.ok (.bool false)) start := by
  have hread : (Expr.parse "false && throw 'boom'" ⟨0, 0, 0⟩).toOption.any (· == conjunction) =
    true := by decide +kernel
  have hraised : Eval.Evaluates [] conjunction start
      (.error (.failure (.exception (.string "boom")))) start :=
    ⟨by simp [Eval.outOfSteps], 3, rfl⟩
  refine ⟨hread, ⟨by simp, 1, rfl⟩, fun h => ?_⟩
  cases (h.unique hraised).1

end RightOperand

end HaxeMacro
