import HaxeMacro.Parser.Entry
import HaxeMacro.Proofs.Parser.Precedence
import HaxeMacro.Proofs.Parser.Productions

/-! # Precedence climbing

The expression that a text is read as is grouped by precedence. What carries this through the
climbing is a bound on what may follow: after an operand that was read at a level, no operator of
that level or a higher one stands.
-/

namespace HaxeMacro

open Parser Token Grammar

/-! ## Types -/

theorem Field.IsAnonymous.wellGrouped {f : Field} (h : f.IsAnonymous)
    (htype : ∀ t, f.kind = .var (some t) none → t.WellGrouped) : f.WellGrouped := by
  obtain ⟨t, hkind⟩ := h.kind
  have ht := htype t hkind
  have hannotations := h.annotations
  obtain ⟨name, doc, access, kind, pos, annotations⟩ := f
  cases hkind
  simp only at hannotations
  rcases hannotations with rfl | rfl
  · exact ⟨⟨ht, trivial⟩, trivial⟩
  · exact ⟨⟨ht, trivial⟩, trivial, trivial⟩

theorem ComplexType.Written.wellGrouped {t : ComplexType} (h : t.Written) : t.WellGrouped := by
  induction h with
  | path _ _ _ ih =>
    refine (groupedTypeArgs_iff _).mpr fun a ha => ?_
    obtain ⟨t, ht, rfl⟩ := List.mem_map.mp ha
    exact ih t ht
  | function _ _ _ _ _ ihargs ihret => exact ⟨(groupedTypes_iff _).mpr ihargs, ihret⟩
  | anonymous hshape _ ih =>
    exact (groupedFields_iff _).mpr fun f hf => (hshape f hf).wellGrouped (ih f hf)
  | paren _ ih => exact ih
  | optional _ _ ih => exact ih

/-! ## Operands -/

theorem Var.BuiltFrom.wellGrouped {v : Var} (h : v.BuiltFrom Expr.WellGrouped) :
    v.WellGrouped := by
  obtain ⟨htype, hinit, hannotations⟩ := h
  obtain ⟨name, type, init, isFinal, isStatic, annotations⟩ := v
  cases hannotations
  exact ⟨(groupedOptionType_iff type).mpr fun t ht => (htype t ht).wellGrouped,
    (groupedOption_iff init).mpr hinit, trivial⟩

theorem Param.BuiltFrom.wellGrouped {p : Param} (h : p.BuiltFrom Expr.WellGrouped) :
    p.WellGrouped := by
  obtain ⟨htype, hdefault, hannotations⟩ := h
  obtain ⟨name, isOptional, type, default, annotations⟩ := p
  cases hannotations
  exact ⟨(groupedOptionType_iff type).mpr fun t ht => (htype t ht).wellGrouped,
    (groupedOption_iff default).mpr hdefault, trivial⟩

namespace ExprKind

/-- A form of an expression that is grouped and may stand before a field, a call or an index. -/
structure IsGroupedBase (kind : ExprKind) : Prop where
  grouped : kind.Grouped
  inside : kind.GroupedInside
  isBase : kind.IsBase

theorem Primary.isGroupedBase {kind : ExprKind}
    (h : kind.Primary Expr.WellGrouped fun e => e.WellGrouped ∧ e.kind.IsOperand) :
    kind.IsGroupedBase := by
  cases h with
  | const => exact ⟨trivial, trivial, trivial⟩
  | paren h => exact ⟨trivial, h, trivial⟩
  | object h =>
    refine ⟨trivial, (groupedObjectFields_iff _).mpr fun field hfield => ?_, trivial⟩
    cases field
    exact h _ hfield
  | array h => exact ⟨trivial, (groupedExprs_iff _).mpr h, trivial⟩
  | block h => exact ⟨trivial, (groupedExprs_iff _).mpr h, trivial⟩
  | new hpath h => exact ⟨trivial, ⟨hpath.wellGrouped, (groupedExprs_iff _).mpr h⟩, trivial⟩
  | vars h =>
    exact ⟨trivial, (groupedVars_iff _).mpr fun v hv => (h v hv).wellGrouped, trivial⟩
  | function _ hparams hret h =>
    refine ⟨trivial, ⟨?_, ?_, h, trivial⟩, trivial⟩
    · exact (groupedParams_iff _).mpr fun p hp => (hparams p hp).wellGrouped
    · exact (groupedOptionType_iff _).mpr fun t ht => (hret t ht).wellGrouped
  | forIn name place pos hrange h =>
    exact ⟨⟨name, rfl⟩, ⟨⟨⟨trivial, trivial⟩, hrange⟩, h⟩, trivial⟩
  | cond htest hyes hno =>
    exact ⟨trivial, ⟨htest, hyes, (groupedOption_iff _).mpr hno⟩, trivial⟩
  | loop htest h => exact ⟨trivial, ⟨htest, h⟩, trivial⟩
  | ret h => exact ⟨trivial, (groupedOption_iff _).mpr h, trivial⟩
  | brk => exact ⟨trivial, trivial, trivial⟩
  | cont => exact ⟨trivial, trivial, trivial⟩
  | untyped h => exact ⟨trivial, h, trivial⟩
  | throw h => exact ⟨trivial, h, trivial⟩
  | castTo h htype => exact ⟨trivial, ⟨h, htype.wellGrouped⟩, trivial⟩
  | cast h => exact ⟨h.2, ⟨h.1, trivial⟩, trivial⟩
  | checkType h htype => exact ⟨trivial, ⟨h, htype.wellGrouped⟩, trivial⟩
  | @annotated entry _ hentry h =>
    cases entry
    exact ⟨trivial, ⟨(groupedExprs_iff _).mpr hentry, h⟩, trivial⟩

theorem Suffixed.isGroupedBase {e : Expr} {kind : ExprKind} (he : e.kind.IsGroupedBase)
    (h : kind.Suffixed Expr.WellGrouped e) : kind.IsGroupedBase := by
  have hwell : e.WellGrouped := e.wellGrouped_iff.mpr ⟨he.grouped, he.inside⟩
  cases h with
  | field => exact ⟨he.isBase, hwell, trivial⟩
  | call h => exact ⟨he.isBase, ⟨hwell, (groupedExprs_iff _).mpr h⟩, trivial⟩
  | index h => exact ⟨he.isBase, ⟨hwell, h⟩, trivial⟩
  | unary => exact ⟨he.isBase, hwell, trivial⟩

end ExprKind

namespace Grammar

theorem applyLeading_grouped (op : UnaryOp) {e : Expr} (pos : Position) (h : e.WellGrouped)
    (hop : e.kind.IsOperand) :
    Expr.WellGrouped ⟨applyLeading op e, pos⟩ ∧ (applyLeading op e).IsOperand := by
  unfold applyLeading
  split
  · exact ⟨⟨trivial, trivial⟩, trivial⟩
  · exact ⟨⟨trivial, trivial⟩, trivial⟩
  · exact ⟨⟨hop, h⟩, trivial⟩

theorem grouped_leading (src : Source) {expr tight : Parser Expr}
    (he : Yields Expr.WellGrouped expr)
    (ht : Yields (fun e => e.WellGrouped ∧ e.kind.IsOperand) tight) :
    Yields (fun e => e.WellGrouped ∧ e.kind.IsOperand) (leading src expr tight) :=
  yields_leading src he ht (fun _ h => h.isGroupedBase) (fun _ _ he h => h.isGroupedBase he)
    (fun e h => ⟨e.wellGrouped_iff.mpr ⟨h.grouped, h.inside⟩, h.isBase.isOperand⟩)
    (fun op _ pos h => applyLeading_grouped op pos h.1 h.2)

/-! ## Binary operators -/

/-- No operator of level `least` or higher stands at the beginning of the text. -/
structure Blocked (least : Nat) (s : List Char) : Prop where
  operator : ∀ op rest, binaryOp s = .done op rest → op.level < least
  ternary : least ≤ ternaryLevel → Refuses ternaryMark s

/-- What is known of the text after an expression that grew to the left of it. -/
def MayPrecede : ExprKind → List Char → Prop
  | .binary op _ _, s => Blocked (rightLevel op) s
  | .ternary .., s => Blocked ternaryLevel s
  | _, _ => True

/-- An operator that is not in parentheses has level `least` or higher. -/
def IsAtLeast (least : Nat) : ExprKind → Prop
  | .binary op _ _ => least ≤ op.level
  | .ternary .. => least ≤ ternaryLevel
  | _ => True

/-- What holds of an expression that grows by operators of level `least` or higher. -/
structure Grown (least : Nat) (e : Expr) (s : List Char) : Prop where
  wellGrouped : e.WellGrouped
  atLeast : IsAtLeast least e.kind
  mayPrecede : MayPrecede e.kind s

/-- What holds of an expression that was read with operators of level `least` or higher. -/
structure Climbed (least : Nat) (e : Expr) (rest : List Char) : Prop where
  wellGrouped : e.WellGrouped
  atLeast : IsAtLeast least e.kind
  blocked : Blocked least rest

theorem grown_of_isOperand {e : Expr} (h : e.WellGrouped) (hop : e.kind.IsOperand) (least : Nat)
    (s : List Char) : Grown least e s := by
  obtain ⟨kind, pos⟩ := e
  cases kind <;> first | exact hop.elim | exact ⟨h, trivial, trivial⟩

/-! ### Levels -/

theorem groupsRight_eq_of_level_eq {a b : BinaryOp} (h : a.level = b.level) :
    a.groupsRight = b.groupsRight := by
  cases a <;> cases b <;> first | rfl | cases h

theorem rightLevel_of_assignment {op : BinaryOp} (h : op.level = assignmentLevel) :
    rightLevel op = assignmentLevel := by
  cases op <;> first | rfl | cases h

theorem assignmentLevel_le (op : BinaryOp) : assignmentLevel ≤ op.level := by
  cases op <;> simp [assignmentLevel, BinaryOp.level]

theorem level_of_rightLevel_le {op : BinaryOp} (h : rightLevel op ≤ ternaryLevel) :
    op.level = assignmentLevel := by
  cases op <;> first | rfl | exact absurd h (by decide)

theorem MayPrecede.isLeftOf {kind : ExprKind} {s rest : List Char} {op : BinaryOp}
    (h : MayPrecede kind s) (hop : binaryOp s = .done op rest) : kind.IsLeftOf op := by
  cases kind with
  | binary inner left right =>
    have hlevel := h.operator op rest hop
    unfold rightLevel at hlevel
    cases hright : inner.groupsRight with
    | true =>
      rw [hright, if_pos rfl] at hlevel
      exact Or.inl hlevel
    | false =>
      rw [hright, if_neg (by decide)] at hlevel
      rcases Nat.lt_or_eq_of_le (Nat.le_of_lt_succ hlevel) with hlt | heq
      · exact Or.inl hlt
      · exact Or.inr ⟨heq, hright⟩
  | ternary test yes no =>
    have hlevel := h.operator op rest hop
    have hle := assignmentLevel_le op
    unfold ternaryLevel at hlevel
    unfold assignmentLevel at hle
    exact (by omega : op.level = 1)
  | _ => exact trivial

theorem MayPrecede.isTest {kind : ExprKind} {s rest : List Char} {a : Unit}
    (h : MayPrecede kind s) (hmark : ternaryMark s = .done a rest) : kind.IsTest := by
  cases kind with
  | binary op left right =>
    intro hlevel
    have hle : rightLevel op ≤ ternaryLevel := by
      rw [rightLevel_of_assignment hlevel]
      decide
    exact (h.ternary hle).not_done hmark
  | ternary test yes no => exact (h.ternary (Nat.le_refl _)).not_done hmark
  | _ => exact trivial

theorem IsAtLeast.isRightOf {kind : ExprKind} {op : BinaryOp}
    (h : IsAtLeast (rightLevel op) kind) : kind.IsRightOf op := by
  cases kind with
  | binary inner left right =>
    have hlevel : rightLevel op ≤ inner.level := h
    unfold rightLevel at hlevel
    cases hright : op.groupsRight with
    | true =>
      rw [hright, if_pos rfl] at hlevel
      rcases Nat.lt_or_eq_of_le hlevel with hlt | heq
      · exact Or.inl hlt
      · exact Or.inr ⟨heq, (groupsRight_eq_of_level_eq heq).symm.trans hright⟩
    | false =>
      rw [hright, if_neg (by decide)] at hlevel
      exact Or.inl hlevel
  | ternary test yes no => exact level_of_rightLevel_le h
  | _ => exact trivial

theorem IsAtLeast.isAlternative {kind : ExprKind} (h : IsAtLeast ternaryLevel kind) :
    kind.IsAlternative := by
  cases kind with
  | binary op left right =>
    intro hlevel
    have hle : ternaryLevel ≤ op.level := h
    rw [hlevel] at hle
    exact absurd hle (by decide)
  | _ => exact trivial

/-! ### One step -/

section

variable {binary : Nat → Parser Expr}
  (hb : ∀ k s e rest, binary k s = .done e rest → Climbed k e rest)
include hb

theorem grown_ternaryTail {least : Nat} {left e : Expr} {s s' rest : List Char} {a : Unit}
    (hle : least ≤ ternaryLevel) (hleft : Grown least left s) (hmark : ternaryMark s = .done a s')
    (h : ternaryTail binary left s' = .done e rest) : Grown least e rest := by
  obtain ⟨yes, s₁, hyes, h⟩ := bind_eq_done h
  obtain ⟨_, s₂, _, h⟩ := bind_eq_done h
  obtain ⟨no, s₃, hno, h⟩ := bind_eq_done h
  cases h
  have hyes := hb 0 s' yes s₁ hyes
  have hno := hb ternaryLevel s₂ no rest hno
  exact {
    wellGrouped := ⟨⟨hleft.mayPrecede.isTest hmark, hno.atLeast.isAlternative⟩,
      hleft.wellGrouped, hyes.wellGrouped, hno.wellGrouped⟩
    atLeast := hle
    mayPrecede := hno.blocked }

theorem grown_operatorTail {least : Nat} {left e : Expr} {s rest : List Char}
    (hleft : Grown least left s) (h : operatorTail binary least left s = .done (some e) rest) :
    Grown least e rest := by
  obtain ⟨op?, s₁, hop?, htail⟩ := bind_eq_done h
  rcases optional_eq_done hop? with ⟨op, rfl, hop⟩ | ⟨rfl, -⟩
  · simp only at htail
    split at htail
    · cases htail
    · rename_i hlevel
      obtain ⟨right, s₂, hright, hresult⟩ := bind_eq_done htail
      cases hresult
      have hright := hb (rightLevel op) s₁ right rest hright
      exact {
        wellGrouped := ⟨⟨hleft.mayPrecede.isLeftOf hop, hright.atLeast.isRightOf⟩,
          hleft.wellGrouped, hright.wellGrouped⟩
        atLeast := Nat.le_of_not_lt hlevel
        mayPrecede := hright.blocked }
  · cases htail

theorem grown_binaryStep {least : Nat} {left e : Expr} {s rest : List Char}
    (hleft : Grown least left s) (h : binaryStep binary least left s = .done (some e) rest) :
    Grown least e rest := by
  unfold binaryStep at h
  split at h
  · rename_i hle
    obtain ⟨asks, s₁, hasks, hrest⟩ := bind_eq_done h
    rcases present_eq_done hasks with ⟨rfl, a, hmark⟩ | ⟨rfl, rfl, -⟩
    · obtain ⟨e', s₂, htail, hresult⟩ := bind_eq_done hrest
      cases hresult
      exact grown_ternaryTail hb hle hleft hmark htail
    · exact grown_operatorTail hb hleft hrest
  · exact grown_operatorTail hb hleft h

omit hb in
theorem blocked_of_binaryStep {least : Nat} {left : Expr} {s rest : List Char}
    (h : binaryStep binary least left s = .done none rest) : Blocked least s := by
  have hoperator : operatorTail binary least left s = .done none rest →
      ∀ op rest, binaryOp s = .done op rest → op.level < least := by
    intro h op middle hop
    obtain ⟨op?, s₁, hop?, htail⟩ := bind_eq_done h
    rw [optional_of_done hop] at hop?
    cases hop?
    simp only at htail
    split at htail
    · assumption
    · obtain ⟨right, s₂, _, hresult⟩ := bind_eq_done htail
      cases hresult
  unfold binaryStep at h
  split at h
  · obtain ⟨asks, s₁, hasks, hrest⟩ := bind_eq_done h
    rcases present_eq_done hasks with ⟨rfl, a, hmark⟩ | ⟨rfl, rfl, hmark⟩
    · obtain ⟨e', s₂, _, hresult⟩ := bind_eq_done hrest
      cases hresult
    · exact ⟨hoperator hrest, fun _ => hmark⟩
  · rename_i hle
    exact ⟨hoperator h, fun hle' => absurd hle' hle⟩

theorem climbed_climb {tight : Parser Expr}
    (ht : Yields (fun e => e.WellGrouped ∧ e.kind.IsOperand) tight) {least : Nat} {e : Expr}
    {s rest : List Char} (h : climb tight binary least s = .done e rest) :
    Climbed least e rest := by
  obtain ⟨first, s₁, hfirst, h⟩ := bind_eq_done h
  obtain ⟨hwell, hop⟩ := ht s first s₁ hfirst
  obtain ⟨hgrown, place, hnone⟩ := grow_eq_done (P := Grown least)
    (fun left e s rest hleft h => grown_binaryStep hb hleft h)
    (grown_of_isOperand hwell hop least s₁) h
  exact ⟨hgrown.wellGrouped, hgrown.atLeast, blocked_of_binaryStep hnone⟩

end

/-! ## All texts -/

theorem climbed_binary (src : Source) (steps : Nat) :
    Yields (fun e => e.WellGrouped ∧ e.kind.IsOperand) (operand src steps) ∧
    ∀ k s e rest, binary src steps k s = .done e rest → Climbed k e rest := by
  induction steps with
  | zero =>
    refine ⟨?_, ?_⟩
    · intro s e rest h
      cases h
    · intro k s e rest h
      cases h
  | succ steps ih =>
    obtain ⟨hoperand, hbinary⟩ := ih
    have hexpr : Yields Expr.WellGrouped (binary src steps 0) :=
      fun s e rest h => (hbinary 0 s e rest h).wellGrouped
    exact ⟨grouped_leading src hexpr hoperand, fun _ _ _ _ h => climbed_climb hbinary hoperand h⟩

theorem yields_expression (src : Source) : Yields Expr.WellGrouped (expression src) :=
  fun s e rest h => ((climbed_binary src (stepsFor s)).2 0 s e rest h).wellGrouped

end Grammar

/-- The expression that a text is read as is grouped by precedence. -/
theorem Expr.wellGrouped_of_parse {text : String} {pos : Position} {e : Expr}
    (h : Expr.parse text pos = .ok e) : e.WellGrouped := by
  unfold Expr.parse Entry.readAll at h
  simp only at h
  split at h
  · cases h
  · split at h
    · rename_i e' rest hread
      split at h
      · cases h
        exact yields_expression _ _ _ _ hread
      · cases h
    · cases h
    · cases h

theorem Expr.wellGrouped_mixed : ∃ e,
    Expr.parse "a = b ? -c : d + e * f.g = h" ⟨0, 0, 0⟩ = .ok e ∧ e.WellGrouped := by
  have hok : (Expr.parse "a = b ? -c : d + e * f.g = h" ⟨0, 0, 0⟩).isOk = true := by
    decide +kernel
  cases h : Expr.parse "a = b ? -c : d + e * f.g = h" ⟨0, 0, 0⟩ with
  | ok e => exact ⟨e, rfl, Expr.wellGrouped_of_parse h⟩
  | error _ =>
    rw [h] at hok
    cases hok

end HaxeMacro
