import HaxeMacro.Value.Constant

/-! # Faults of constant expressions

Whatever is wrong with a constant expression, it is not a fatal error: an operator refuses its
operands, the expression is not constant, or a whole number leaves its range. The last happens to
two operators and to one operand each: the least number has no negation, and no remainder when it is
divided by -1.
-/

namespace HaxeMacro

variable {α β : Type}

def Fault.isFatal : Fault → Bool
  | error e => e.isFatal
  | stopped _ => false

/-- The computation does not end with a fatal error. -/
def Mild (result : Except Fault α) : Prop := ∀ fault, result = .error fault → fault.isFatal = false

def Fault.IsRefusal : Fault → Prop
  | error e => e.isFatal = false
  | stopped _ => False

def Faults (P : Fault → Prop) (result : Except Fault α) : Prop :=
  ∀ fault, result = .error fault → P fault

namespace Faults

variable {P Q : Fault → Prop} {result : Except Fault α}

theorem ok (a : α) : Faults P (.ok a : Except Fault α) := nofun

theorem error {fault : Fault} (h : P fault) : Faults P (.error fault : Except Fault α) := by
  intro _ heq
  cases heq
  exact h

theorem mono (h : Faults P result) (hPQ : ∀ fault, P fault → Q fault) : Faults Q result :=
  fun fault hfault => hPQ fault (h fault hfault)

theorem bind {f : α → Except Fault β} (h : Faults P result)
    (hf : ∀ a, result = .ok a → Faults P (f a)) : Faults P (result >>= f) := by
  cases result with
  | ok a => exact hf a rfl
  | error fault => exact .error (h fault rfl)

theorem map (h : Faults P result) (f : α → β) : Faults P (result.map f) := by
  cases result with
  | ok a => exact .ok (f a)
  | error fault => exact .error (h fault rfl)

theorem mapM {f : α → Except Fault β} (hf : ∀ a, Faults P (f a)) (as : List α) :
    Faults P (as.mapM f) := by
  induction as with
  | nil => exact .ok []
  | cons a as ih =>
    rw [List.mapM_cons]
    exact (hf a).bind fun _ _ => ih.bind fun _ _ => .ok _

end Faults

theorem Mild.mapM {f : α → Except Fault β} (hf : ∀ a, Mild (f a)) (as : List α) :
    Mild (as.mapM f) :=
  Faults.mapM hf as

/-! ## Refusals and overflows -/

/-- Every fault is a refusal, or else an overflow, and an overflow only if `Overflows`. -/
def Fault.RefusesUnless (Overflows : Prop) (fault : Fault) : Prop :=
  fault.IsRefusal ∨ fault = .stopped .overflow ∧ Overflows

namespace Fault.RefusesUnless

variable {A B : Prop} {fault : Fault}

theorem mono (h : fault.RefusesUnless A) (hAB : A → B) : fault.RefusesUnless B :=
  h.imp_right fun ⟨hfault, hA⟩ => ⟨hfault, hAB hA⟩

theorem isFatal (h : fault.RefusesUnless A) : fault.isFatal = false := by
  obtain h | ⟨rfl, -⟩ := h
  · cases fault with
    | error e => exact h
    | stopped stop => rfl
  · rfl

theorem of_stopped {stop : Stop} (h : (stopped stop).RefusesUnless A) : stop = .overflow ∧ A := by
  obtain h | ⟨heq, hA⟩ := h
  · exact h.elim
  · cases heq
    exact ⟨rfl, hA⟩

end Fault.RefusesUnless

open Fault (IsRefusal RefusesUnless)

/-! ## Operators -/

def BinaryOp.Overflows (op : BinaryOp) (left right : Value) : Prop :=
  op = .mod ∧ left = .int Int64.minValue ∧ right = .int (-1)

def UnaryOp.Overflows (op : UnaryOp) (v : Value) : Prop := op = .neg ∧ v = .int Int64.minValue

namespace Value

variable {left right : Value} {pos : Position}

theorem faults_add : Faults IsRefusal (add left right pos) := by
  unfold add
  split <;> first | exact .ok _ | exact .error rfl

theorem faults_numeric {onInts : Int64 → Int64 → Except Fault Int64} {P : Fault → Prop}
    (hints : ∀ a b, left = .int a → right = .int b → Faults P (onInts a b))
    (hrefusal : ∀ fault, IsRefusal fault → P fault) (onFloats : Float → Float → Float) :
    Faults P (numeric onInts onFloats left right pos) := by
  unfold numeric
  split
  · exact (hints _ _ rfl rfl).map _
  all_goals first | exact .ok _ | exact .error (hrefusal _ rfl)

theorem faults_bitwise (f : Int64 → Int64 → Int64) :
    Faults IsRefusal (bitwise f left right pos) := by
  unfold bitwise
  split
  · exact .ok _
  · exact .error rfl

theorem faults_comparison (holds : Ordering → Bool) :
    Faults IsRefusal (comparison holds left right pos) := by
  unfold comparison
  split
  · exact .ok _
  · exact .error rfl

theorem faults_remainderOfInts (a b : Int64) :
    Faults (RefusesUnless (a = Int64.minValue ∧ b = -1)) (remainderOfInts a b) := by
  unfold remainderOfInts
  split
  next h => exact .error (.inr ⟨rfl, h⟩)
  next => exact .ok _

theorem faults_negate (i : Int64) :
    Faults (RefusesUnless (i = Int64.minValue)) (negate i) := by
  unfold negate
  split
  next h => exact .error (.inr ⟨rfl, h⟩)
  next => exact .ok _

theorem faults_applyBinary (op : BinaryOp) :
    Faults (RefusesUnless (op.Overflows left right)) (applyBinary op left right pos) := by
  have hrefusal {P : Prop} (fault : Fault) (h : IsRefusal fault) : RefusesUnless P fault := .inl h
  cases op with
  | add => exact faults_add.mono hrefusal
  | sub | mult => exact faults_numeric (fun _ _ _ _ => .ok _) hrefusal _
  | mod =>
    simp only [applyBinary]
    split
    · exact .error (.inl rfl)
    · refine faults_numeric (fun a b hleft hright => ?_) hrefusal _
      refine (faults_remainderOfInts a b).mono fun _ h => h.mono ?_
      rintro ⟨rfl, rfl⟩
      exact ⟨rfl, hleft, hright⟩
  | lt | lte | gt | gte => exact (faults_comparison _).mono hrefusal
  | and | or | xor | shl | shr | ushr => exact (faults_bitwise _).mono hrefusal
  | div | interval =>
    simp only [applyBinary]
    split
    · exact .ok _
    · exact .error (.inl rfl)
  | eq | notEq | boolAnd | boolOr | nullCoal => exact .ok _
  | _ => exact .error (.inl rfl)

/-- No operator gives up but a remainder. -/
theorem applyBinary_eq_stopped_iff {op : BinaryOp} {stop : Stop} :
    applyBinary op left right pos = .error (.stopped stop) ↔
      stop = .overflow ∧ op.Overflows left right := by
  refine ⟨fun h => (faults_applyBinary op _ h).of_stopped, ?_⟩
  rintro ⟨rfl, rfl, rfl, rfl⟩
  rfl

end Value

namespace UnaryOp

variable {op : UnaryOp} {v : Value} {pos : Position}

theorem faults_applyToConstant (op : UnaryOp) (v : Value) (pos : Position) :
    Faults (RefusesUnless (op.Overflows v)) (op.applyToConstant v pos) := by
  unfold applyToConstant
  split
  · refine ((Value.faults_negate _).map _).mono fun _ h => h.mono ?_
    rintro rfl
    exact ⟨rfl, rfl⟩
  all_goals first | exact .ok _ | exact .error (.inl rfl)

/-- No operator gives up but a negation. -/
theorem applyToConstant_eq_stopped_iff {stop : Stop} :
    op.applyToConstant v pos = .error (.stopped stop) ↔ stop = .overflow ∧ op.Overflows v := by
  refine ⟨fun h => (faults_applyToConstant op v pos _ h).of_stopped, ?_⟩
  rintro ⟨rfl, rfl, rfl⟩
  rfl

end UnaryOp

/-! ## Expressions -/

/-- The expression is constant, and its value can be computed. -/
def Expr.IsConstant (e : Expr) : Prop := ∃ v, e.constant = .ok v

/-- An operator in the expression overflows, and everything before it has a value. -/
inductive Expr.Overflows : Expr → Prop
  | negation {op : UnaryOp} {operand : Expr} {v : Value} {pos : Position}
    (hoperand : operand.constant = .ok v) (h : op.Overflows v) :
    Overflows ⟨.unary op false operand, pos⟩
  | remainder {op : BinaryOp} {left right : Expr} {a b : Value} {pos : Position}
    (hleft : left.constant = .ok a) (hright : right.constant = .ok b) (h : op.Overflows a b) :
    Overflows ⟨.binary op left right, pos⟩
  | paren {inner : Expr} {pos : Position} (h : Overflows inner) : Overflows ⟨.paren inner, pos⟩
  | operand {op : UnaryOp} {operand : Expr} {pos : Position} (h : Overflows operand) :
    Overflows ⟨.unary op false operand, pos⟩
  | left {op : BinaryOp} {left right : Expr} {pos : Position} (h : Overflows left) :
    Overflows ⟨.binary op left right, pos⟩
  | right {op : BinaryOp} {left right : Expr} {pos : Position} (hleft : left.IsConstant)
    (h : Overflows right) : Overflows ⟨.binary op left right, pos⟩
  | item {before after : List Expr} {e : Expr} {pos : Position}
    (hbefore : ∀ b ∈ before, b.IsConstant) (h : Overflows e) :
    Overflows ⟨.array (before ++ e :: after), pos⟩
  | field {before after : List ObjectField} {f : ObjectField} {pos : Position}
    (hbefore : ∀ b ∈ before, b.value.IsConstant) (h : Overflows f.value) :
    Overflows ⟨.object (before ++ f :: after), pos⟩

theorem constantItems_eq_mapM (items : List Expr) :
    constantItems items = items.mapM Expr.constant := by
  induction items with
  | nil => rfl
  | cons e es ih =>
    rw [constantItems, List.mapM_cons, ih]

theorem constantFields_eq_mapM (fields : List ObjectField) :
    constantFields fields = fields.mapM fun f => do return (f.name, ← f.value.constant) := by
  induction fields with
  | nil => rfl
  | cons f fields ih =>
    obtain ⟨name, e, quoted⟩ := f
    rw [constantFields, List.mapM_cons, ih]
    cases e.constant <;> rfl

theorem mapM_append_of_error {f : α → Except Fault β} {before after : List α} {a : α}
    {fault : Fault} (hbefore : ∀ b ∈ before, ∃ v, f b = .ok v) (ha : f a = .error fault) :
    (before ++ a :: after).mapM f = .error fault := by
  induction before with
  | nil =>
    rw [List.nil_append, List.mapM_cons, ha]
    rfl
  | cons b before ih =>
    obtain ⟨v, hb⟩ := hbefore b List.mem_cons_self
    have hrest := ih fun c hc => hbefore c (List.mem_cons_of_mem _ hc)
    rw [List.cons_append, List.mapM_cons, hb, hrest]
    rfl

theorem Expr.Overflows.constant_eq {e : Expr} (h : e.Overflows) :
    e.constant = .error (.stopped .overflow) := by
  induction h with
  | negation hoperand h =>
    rw [constant, ExprKind.constant, hoperand]
    exact UnaryOp.applyToConstant_eq_stopped_iff.mpr ⟨rfl, h⟩
  | remainder hleft hright h =>
    rw [constant, ExprKind.constant, hleft, hright]
    exact Value.applyBinary_eq_stopped_iff.mpr ⟨rfl, h⟩
  | paren _ ih => rwa [constant, ExprKind.constant]
  | operand _ ih =>
    rw [constant, ExprKind.constant, ih]
    rfl
  | left _ ih =>
    rw [constant, ExprKind.constant, ih]
    rfl
  | right hleft _ ih =>
    obtain ⟨v, hleft⟩ := hleft
    rw [constant, ExprKind.constant, hleft, ih]
    rfl
  | item hbefore _ ih =>
    rw [constant, ExprKind.constant, constantItems_eq_mapM, mapM_append_of_error hbefore ih]
    rfl
  | field hbefore _ ih =>
    rw [constant, ExprKind.constant, constantFields_eq_mapM, mapM_append_of_error ?_ ?_]
    · rfl
    · intro b hb
      obtain ⟨v, hv⟩ := hbefore b hb
      rw [hv]
      exact ⟨_, rfl⟩
    · rw [ih]
      rfl

theorem Expr.faults_constant (e : Expr) : Faults (RefusesUnless e.Overflows) e.constant := by
  refine (constant.mutual_induct (fun e => Faults (RefusesUnless e.Overflows) e.constant)
    (fun pos kind => Faults (RefusesUnless (Overflows ⟨kind, pos⟩)) (kind.constant pos))
    (fun fields => Faults (RefusesUnless (∃ before f after, fields = before ++ f :: after ∧
      (∀ b ∈ before, b.value.IsConstant) ∧ f.value.Overflows)) (constantFields fields))
    (fun items => Faults (RefusesUnless (∃ before e after, items = before ++ e :: after ∧
      (∀ b ∈ before, b.IsConstant) ∧ e.Overflows)) (constantItems items))
    ?expr ?literal ?noLiteral ?paren ?array ?object ?unary ?binary ?other
    ?noFields ?field ?noItems ?item).1 e
  case expr =>
    intro kind pos h
    rwa [constant]
  case literal =>
    intro pos c v h
    rw [ExprKind.constant, h]
    exact .ok v
  case noLiteral =>
    intro pos c h
    rw [ExprKind.constant, h]
    exact .error (.inl rfl)
  case paren =>
    intro pos inner h
    rw [ExprKind.constant]
    exact h.mono fun _ hfault => hfault.mono .paren
  case array =>
    intro pos items h
    rw [ExprKind.constant]
    refine Faults.bind (h.mono fun _ hfault => hfault.mono ?_) fun _ _ => .ok _
    rintro ⟨before, e, after, rfl, hbefore, he⟩
    exact .item hbefore he
  case object =>
    intro pos fields h
    rw [ExprKind.constant]
    refine Faults.bind (h.mono fun _ hfault => hfault.mono ?_) fun _ _ => .ok _
    rintro ⟨before, f, after, rfl, hbefore, hf⟩
    exact .field hbefore hf
  case unary =>
    intro pos op operand h
    rw [ExprKind.constant]
    refine Faults.bind (h.mono fun _ hfault => hfault.mono .operand) fun v hv => ?_
    exact (op.faults_applyToConstant v pos).mono fun _ hfault => hfault.mono (.negation hv)
  case binary =>
    intro pos op left right hleft hright
    rw [ExprKind.constant]
    refine Faults.bind (hleft.mono fun _ hfault => hfault.mono .left) fun a ha => ?_
    refine Faults.bind (hright.mono fun _ hfault => hfault.mono (.right ⟨a, ha⟩)) fun b hb => ?_
    exact (Value.faults_applyBinary op).mono fun _ hfault => hfault.mono (.remainder ha hb)
  case other =>
    intro kind pos hconst hparen harray hobject hunary hbinary
    rw [ExprKind.constant]
    · exact .error (.inl rfl)
    all_goals assumption
  case noFields =>
    rw [constantFields]
    exact .ok []
  case field =>
    intro name e quoted fields h hfields
    rw [constantFields]
    refine Faults.bind (h.mono fun _ hfault => hfault.mono fun he => ?_) fun v hv => ?_
    · exact ⟨[], ⟨name, e, quoted⟩, fields, rfl, nofun, he⟩
    · refine Faults.bind (hfields.mono fun _ hfault => hfault.mono ?_) fun _ _ => .ok _
      rintro ⟨before, f, after, rfl, hbefore, hf⟩
      exact ⟨⟨name, e, quoted⟩ :: before, f, after, rfl,
        List.forall_mem_cons.mpr ⟨⟨v, hv⟩, hbefore⟩, hf⟩
  case noItems =>
    rw [constantItems]
    exact .ok []
  case item =>
    intro e es h hes
    rw [constantItems]
    refine Faults.bind (h.mono fun _ hfault => hfault.mono fun he => ?_) fun v hv => ?_
    · exact ⟨[], e, es, rfl, nofun, he⟩
    · refine Faults.bind (hes.mono fun _ hfault => hfault.mono ?_) fun _ _ => .ok _
      rintro ⟨before, e', after, rfl, hbefore, he'⟩
      exact ⟨e :: before, e', after, rfl, List.forall_mem_cons.mpr ⟨⟨v, hv⟩, hbefore⟩, he'⟩

theorem Expr.mild_constant (e : Expr) : Mild e.constant :=
  fun fault h => (e.faults_constant fault h).isFatal

/-- A constant is given up exactly where an operator in it overflows. -/
theorem Expr.constant_eq_stopped_iff {e : Expr} {stop : Stop} :
    e.constant = .error (.stopped stop) ↔ stop = .overflow ∧ e.Overflows := by
  refine ⟨fun h => (e.faults_constant _ h).of_stopped, ?_⟩
  rintro ⟨rfl, h⟩
  exact h.constant_eq

end HaxeMacro
