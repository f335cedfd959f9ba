import HaxeMacro.Evaluator.Native
import HaxeMacro.Proofs.Engine.Runs

/-! # Constants that are evaluated

A constant expression stands for its value wherever it is met: where expressions are folded, and
where they are evaluated. Its evaluation needs some steps and does nothing else.
-/

namespace HaxeMacro

variable {I G α β : Type}

theorem Except.ok_of_bind {ε : Type} {result : Except ε α} {f : α → Except ε β} {b : β}
    (h : result >>= f = .ok b) : ∃ a, result = .ok a ∧ f a = .ok b := by
  cases result with
  | ok a => exact ⟨a, rfl, h⟩
  | error => cases h

namespace Eval

/-- With enough steps the evaluation gives the value and leaves everything as it is. -/
def Settles (op : Nat → Eval I G α) (a : α) : Prop :=
  ∃ n, ∀ steps ≥ n, ∀ s, (op steps).run s = (.ok a, s)

namespace Settles

theorem pure (a : α) : Settles (fun _ => (pure a : Eval I G α)) a := ⟨0, fun _ _ _ => rfl⟩

theorem bind {op : Nat → Eval I G α} {f : Nat → α → Eval I G β} {a : α} {b : β}
    (h : Settles op a) (hf : Settles (f · a) b) : Settles (fun steps => op steps >>= f steps) b := by
  obtain ⟨n, h⟩ := h
  obtain ⟨m, hf⟩ := hf
  refine ⟨max n m, fun steps hsteps s => ?_⟩
  rw [run_bind_ok (h steps (by omega) s), hf steps (by omega) s]

theorem map {op : Nat → Eval I G α} {a : α} (h : Settles op a) (f : α → β) :
    Settles (fun steps => do return f (← op steps)) (f a) :=
  bind (f := fun _ a => Pure.pure (f a)) h (pure (f a))

/-- One step is for the form of an expression, all others are for its parts. -/
theorem of_parts (parts : Nat → Eval I G α) {op : Nat → Eval I G α} {a : α}
    (hform : ∀ steps, op (steps + 1) = parts steps) (h : Settles parts a) : Settles op a := by
  obtain ⟨n, h⟩ := h
  refine ⟨n + 1, fun steps hsteps s => ?_⟩
  obtain ⟨m, rfl⟩ : ∃ m, steps = m + 1 := ⟨steps - 1, by omega⟩
  rw [hform, h m (by omega) s]

end Settles

/-! ## Operators -/

theorem applyPrefix_of_constant {op : UnaryOp} {v w : Value} {pos : Position}
    (h : op.applyToConstant v pos = .ok w) :
    (applyPrefix op v : Eval I G Value) = pure w := by
  unfold UnaryOp.applyToConstant at h
  split at h
  · rw [applyPrefix, h]
    rfl
  · cases h
    rfl
  · cases h
    rfl
  · cases h
    rfl
  · cases h

theorem assignedBy_of_applyBinary {op : BinaryOp} {a b v : Value} {pos : Position}
    (h : Value.applyBinary op a b pos = .ok v) : assignedBy op = none := by
  cases op with
  | assign | assignOp => cases h
  | _ => rfl

/-! ## Expressions -/

theorem settles_constant (natives : Natives I G) (e : Expr) :
    ∀ v, e.constant = .ok v → Settles (eval natives · e) v := by
  refine (Expr.constant.mutual_induct
    (fun e => ∀ v, e.constant = .ok v → Settles (eval natives · e) v)
    (fun pos kind => ∀ v, kind.constant pos = .ok v → Settles (eval natives · ⟨kind, pos⟩) v)
    (fun fields => ∀ vs, constantFields fields = .ok vs → Settles
      (fun n => fields.mapM fun f => do return (f.name, ← eval natives n f.value)) vs)
    (fun items => ∀ vs, constantItems items = .ok vs → Settles
      (fun n => items.mapM (eval natives n)) vs)
    ?expr ?literal ?noLiteral ?paren ?array ?object ?unary ?binary ?other
    ?noFields ?field ?noItems ?item).1 e
  case expr =>
    intro kind pos h
    rwa [Expr.constant]
  case literal =>
    intro pos c v hc w h
    rw [ExprKind.constant, hc] at h
    cases h
    have hvalue : Expr.constant ⟨.const c, pos⟩ = .ok v := by
      rw [Expr.constant, ExprKind.constant, hc]
    refine .of_parts (fun _ => pure v) (fun steps => ?_) (.pure v)
    cases c with
    | ident name =>
      change identifier name = _
      rw [identifier, show Constant.identValue name = some v from hc]
    | _ => exact congrArg ofResult hvalue
  case noLiteral =>
    intro pos c hc v h
    rw [ExprKind.constant, hc] at h
    cases h
  case paren =>
    intro pos inner ih v h
    rw [ExprKind.constant] at h
    exact .of_parts (eval natives · inner) (fun _ => rfl) (ih v h)
  case array =>
    intro pos items ih v h
    rw [ExprKind.constant] at h
    obtain ⟨vs, hvs, h⟩ := Except.ok_of_bind h
    cases h
    refine .of_parts (fun n => do return .array (← items.mapM (eval natives n))) (fun _ => rfl) ?_
    exact (ih vs hvs).map Value.array
  case object =>
    intro pos fields ih v h
    rw [ExprKind.constant] at h
    obtain ⟨vs, hvs, h⟩ := Except.ok_of_bind h
    cases h
    refine .of_parts (fun n => do
      return .ofFields (← fields.mapM fun f => do return (f.name, ← eval natives n f.value)))
      (fun _ => rfl) ?_
    exact (ih vs hvs).map Value.ofFields
  case unary =>
    intro pos op operand ih v h
    rw [ExprKind.constant] at h
    obtain ⟨a, ha, h⟩ := Except.ok_of_bind h
    refine .of_parts (fun n => do applyPrefix op (← eval natives n operand)) (fun _ => rfl) ?_
    refine (ih a ha).bind ?_
    rw [applyPrefix_of_constant h]
    exact .pure v
  case binary =>
    intro pos op left right ihleft ihright v h
    rw [ExprKind.constant] at h
    obtain ⟨a, ha, h⟩ := Except.ok_of_bind h
    obtain ⟨b, hb, h⟩ := Except.ok_of_bind h
    refine .of_parts (fun n => do
      let l ← eval natives n left
      let r ← eval natives n right
      ofResult (Value.applyBinary op l r pos)) (fun n => ?_) ?_
    · rw [eval]
      simp only [assignedBy_of_applyBinary h]
    · refine (ihleft a ha).bind ((ihright b hb).bind ?_)
      rw [h]
      exact .pure v
  case other =>
    intro kind pos hconst hparen harray hobject hunary hbinary v h
    rw [ExprKind.constant] at h
    · cases h
    all_goals assumption
  case noFields =>
    intro vs h
    cases h
    exact .pure []
  case field =>
    intro name e quoted fields ih ihfields vs h
    rw [constantFields] at h
    obtain ⟨v, hv, h⟩ := Except.ok_of_bind h
    obtain ⟨rest, hrest, h⟩ := Except.ok_of_bind h
    cases h
    simp only [List.mapM_cons]
    exact ((ih v hv).map (name, ·)).bind ((ihfields rest hrest).map _)
  case noItems =>
    intro vs h
    cases h
    exact .pure []
  case item =>
    intro e es ih ihes vs h
    rw [constantItems] at h
    obtain ⟨v, hv, h⟩ := Except.ok_of_bind h
    obtain ⟨rest, hrest, h⟩ := Except.ok_of_bind h
    cases h
    simp only [List.mapM_cons]
    exact (ih v hv).bind ((ihes rest hrest).map _)

theorem run_inBody_ok (env : Env) {body : Eval I G Value} {s t : EvalState I G} {v : Value}
    (h : body.run { s with env } = (.ok v, t)) :
    (inBody env body).run s = (.ok v, { t with env := s.env }) := by
  rw [ExceptT.run, inBody]
  simp only [h]
  rfl

end Eval

/-! ## Arguments -/

/-- A constant argument means the same to a macro whether it is folded or evaluated. With enough
steps the evaluation gives the value that the folding gives, and changes neither the variables nor
the runtime with its closures nor the session; and so does the runtime where the argument is typed
first. -/
theorem constants_evaluate_to_themselves {e : Expr} {v : Value} (h : e.constant = .ok v)
    (natives : Natives I G) :
    ∃ n, ∀ steps ≥ n,
      (∀ s, (Eval.eval natives steps e).run s = (.ok v, s)) ∧
      ∀ failures type runtime session,
        ((NativeRuntime.make natives failures steps).evalExpr ⟨e, type⟩).run (runtime, session) =
          (.ok (some v), runtime, session) := by
  obtain ⟨n, hn⟩ := Eval.settles_constant natives e v h
  refine ⟨n, fun steps hsteps => ⟨hn steps hsteps, fun failures type runtime session => ?_⟩⟩
  have hbody := Eval.run_inBody_ok .empty (s := ⟨.empty, runtime, session⟩)
    (hn steps hsteps _)
  have hwhole : (do return some (← Eval.inBody .empty (Eval.eval natives steps e)) :
      Eval I G (Option Value)).run ⟨.empty, runtime, session⟩ =
      (.ok (some v), ⟨.empty, runtime, session⟩) := run_bind_ok hbody
  simp only [NativeRuntime.make, NativeRuntime.perform, ExceptT.run] at hwhole ⊢
  rw [hwhole]

namespace ConstantArgument

def written : Expr :=
  let whole (text : String) : Expr := .int text .null
  let negated : Expr := ⟨.unary .neg false ⟨.paren (whole "0x10"), .null⟩, .null⟩
  let denied : Expr := ⟨.unary .not false (.ident "true" .null), .null⟩
  ⟨.object [⟨"size", ⟨.binary .add (whole "2") negated, .null⟩, false⟩,
    ⟨"flags", ⟨.array [denied, .null .null], .null⟩, false⟩], .null⟩

def value : Value := .object [("size", .int (-14)), ("flags", .array [.bool false, .null])]

theorem written_evaluates_to_value : written.constant = .ok value ∧
    ∃ n, ∀ steps ≥ n,
      (∀ s, (Eval.eval ([] : Natives Unit Unit) steps written).run s = (.ok value, s)) ∧
      ∀ failures type runtime session,
        ((NativeRuntime.make ([] : Natives Unit Unit) failures steps).evalExpr
          ⟨written, type⟩).run (runtime, session) = (.ok (some value), runtime, session) :=
  have hconstant : written.constant = .ok value := rfl
  ⟨hconstant, constants_evaluate_to_themselves hconstant []⟩

end ConstantArgument

end HaxeMacro
