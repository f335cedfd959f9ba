import HaxeMacro.Proofs.Parser.Climbing
import HaxeMacro.Proofs.Parser.Literals

/-! # Texts of one constant

A text is read as a constant exactly if its first operand is one and nothing goes on after it. An
operand that starts with a quote is a string literal, and one that starts with a minus and a space
is the operand after them, negated.
-/

namespace HaxeMacro

open Parser Token

theorem Entry.readAll_eq_ok_iff {α : Type} {entry : Entry} {parser : Grammar.Source → Parser α}
    {s : List Char} {pos : Position} {a : α} :
    readAll entry parser s pos = .ok a ↔ Text.allBlank s = false ∧
      ∃ rest, parser (.of s pos) s = .done a rest ∧ skipTrailing rest = [] := by
  unfold readAll
  constructor
  · intro h
    simp only at h
    split at h
    · cases h
    · rename_i hblank
      split at h
      · split at h
        · cases h
          exact ⟨Bool.eq_false_iff.mpr hblank, _, by assumption, by assumption⟩
        · cases h
      · cases h
      · cases h
  · rintro ⟨hblank, rest, hdone, hrest⟩
    simp only [hblank, Bool.false_eq_true, if_false, hdone, hrest]

def ExprKind.IsConstant : ExprKind → Prop
  | .const _ => True
  | _ => False

theorem ExprKind.Suffixed.not_isConstant {P : Expr → Prop} {e : Expr} {kind : ExprKind}
    (h : kind.Suffixed P e) : ¬kind.IsConstant := by
  cases h <;> exact not_false

namespace Grammar

/-! ## What goes on after an operand -/

/-- An expression of a kind that nothing grows to has not grown. -/
theorem grow_eq_first {P : ExprKind → Prop} {step : Expr → Parser (Option Expr)}
    (hstep : ∀ e, Yields (fun e? => ∀ e' ∈ e?, ¬P e'.kind) (step e)) {first e : Expr}
    {s rest : List Char} (h : grow step first s = .done e rest) (he : P e.kind) :
    e = first ∧ rest = s ∧ ∃ place, step first s = .done none place := by
  have hkeeps : ∀ (a b : Expr) (t t' : List Char), ((a = first ∧ t = s) ∨ ¬P a.kind) →
      step a t = .done (some b) t' → (b = first ∧ t' = s) ∨ ¬P b.kind :=
    fun a b t t' _ h => Or.inr (hstep a t _ t' h b rfl)
  obtain ⟨heq, hnone⟩ := grow_eq_done hkeeps (Or.inl ⟨rfl, rfl⟩) h
  rcases heq with ⟨rfl, rfl⟩ | hgrown
  · exact ⟨rfl, rfl, hnone⟩
  · exact absurd he hgrown

section

variable {binary : Nat → Parser Expr} {least : Nat}

theorem yields_operatorTail (left : Expr) :
    Yields (fun e? => ∀ e ∈ e?, ¬e.kind.IsOperand) (operatorTail binary least left) := by
  refine Yields.after fun op? => ?_
  cases op? with
  | none =>
    refine Yields.pure fun e he => ?_
    cases he
  | some op =>
    simp only
    split
    · refine Yields.pure fun e he => ?_
      cases he
    · refine Yields.after fun right => Yields.pure fun e he => ?_
      cases he
      exact not_false

theorem yields_binaryStep (left : Expr) :
    Yields (fun e? => ∀ e ∈ e?, ¬e.kind.IsOperand) (binaryStep binary least left) := by
  have hternary : Yields (fun e => ¬e.kind.IsOperand) (ternaryTail binary left) :=
    Yields.after fun _ => Yields.after fun _ => Yields.after fun _ => Yields.pure not_false
  have hrest : ∀ asks : Bool, Yields (fun e? => ∀ e ∈ e?, ¬e.kind.IsOperand)
      (if asks then do return some (← ternaryTail binary left)
        else operatorTail binary least left) := by
    intro asks
    cases asks with
    | true =>
      refine hternary.bind fun e he => Yields.pure fun e' he' => ?_
      cases he'
      exact he
    | false => exact yields_operatorTail left
  unfold binaryStep
  split
  · exact Yields.after hrest
  · exact hrest false

theorem Blocked.binaryStep_eq {s : List Char} (h : Blocked least s)
    (binary : Nat → Parser Expr) (left : Expr) :
    ∃ rest, binaryStep binary least left s = .done none rest := by
  have hoperator : ∃ rest, operatorTail binary least left s = .done none rest := by
    cases hop : binaryOp s with
    | done op rest =>
      have hlevel := h.operator op rest hop
      refine ⟨rest, ?_⟩
      rw [operatorTail, bind_of_done (optional_of_done hop)]
      simp only [if_pos hlevel]
      rfl
    | refused place =>
      have hnone : optional binaryOp s = .done none s := Refuses.optional_eq ⟨place, hop⟩
      exact ⟨s, by rw [operatorTail, bind_of_done hnone]; rfl⟩
    | exhausted =>
      have hanswers := eats_binaryOp s
      rw [hop] at hanswers
      exact hanswers.elim
  unfold binaryStep
  split
  · rename_i hle
    rw [bind_of_done (h.ternary hle).present_eq]
    exact hoperator
  · exact hoperator

end

theorem blocked_nil (least : Nat) : Blocked least [] := by
  refine ⟨?_, fun _ => ⟨[], rfl⟩⟩
  intro op rest h
  cases h

theorem tightExpr_of_exprAt {src : Source} {least : Nat} {s rest : List Char} {e : Expr}
    (h : exprAt src least s = .done e rest) (he : e.kind.IsOperand) :
    tightExpr src s = .done e rest ∧
      ∃ place, binaryStep (exprAt src) least e rest = .done none place := by
  rw [exprAt_eq] at h
  obtain ⟨first, middle, hfirst, h⟩ := bind_eq_done h
  obtain ⟨rfl, rfl, hnone⟩ := grow_eq_first yields_binaryStep h he
  exact ⟨hfirst, hnone⟩

/-- Nothing is left to add to a constant that an expression is read as. -/
theorem exprAt_eq_const_iff (src : Source) {least : Nat} {s rest : List Char} {c : Constant}
    {pos : Position} :
    exprAt src least s = .done ⟨.const c, pos⟩ rest ↔
      tightExpr src s = .done ⟨.const c, pos⟩ rest ∧ Blocked least rest := by
  constructor
  · intro h
    obtain ⟨hfirst, place, hnone⟩ := tightExpr_of_exprAt h trivial
    exact ⟨hfirst, blocked_of_binaryStep hnone⟩
  · rintro ⟨hfirst, hblocked⟩
    obtain ⟨place, hnone⟩ := hblocked.binaryStep_eq (exprAt src) ⟨.const c, pos⟩
    rw [exprAt_eq, climb, bind_of_done hfirst]
    simp only [grow, growWithin, hnone]

end Grammar

theorem Expr.parse_eq_const_iff {text : String} {pos place : Position} {c : Constant} :
    Expr.parse text pos = .ok ⟨.const c, place⟩ ↔ Text.allBlank text.toList = false ∧
      ∃ rest, Grammar.tightExpr (.of text.toList pos) text.toList = .done ⟨.const c, place⟩ rest ∧
        Grammar.Blocked 0 rest ∧ Entry.skipTrailing rest = [] := by
  unfold Expr.parse
  rw [Entry.readAll_eq_ok_iff]
  simp only [Grammar.expression_eq, Grammar.exprAt_eq_const_iff, and_assoc]

namespace Grammar

/-! ## Operands after a minus -/

theorem tightExpr_minus (src : Source) {s rest : List Char} {e : Expr}
    (h : tightExpr src s = .done e rest) :
    tightExpr src ('-' :: ' ' :: s) =
      .done ⟨applyLeading .neg e, src.span ('-' :: ' ' :: s) rest⟩ rest := by
  have hop : optional leadingOp ('-' :: ' ' :: s) = .done (some .neg) (' ' :: s) := rfl
  have hspace : tightExpr src (' ' :: s) = .done e rest := by
    rw [tightExpr_eq] at h ⊢
    exact h
  rw [tightExpr_eq]
  have hblanks : blanks ('-' :: ' ' :: s) = .done () ('-' :: ' ' :: s) := rfl
  rw [leading, bind_of_done hblanks, bind_of_done (here_apply _), bind_of_done hop]
  simp only
  rw [bind_of_done hspace]
  rfl

/-- What starts with two minus signs is read as a decrement. -/
theorem tightExpr_minus_minus {src : Source} {s rest : List Char} {e : Expr}
    (h : tightExpr src ('-' :: '-' :: s) = .done e rest) :
    ∃ operand, e.kind = .unary .decrement false operand := by
  have hblanks : blanks ('-' :: '-' :: s) = .done () ('-' :: '-' :: s) := rfl
  have hop : optional leadingOp ('-' :: '-' :: s) = .done (some .decrement) s := rfl
  rw [tightExpr_eq, leading, bind_of_done hblanks, bind_of_done (here_apply _),
    bind_of_done hop] at h
  obtain ⟨operand, middle, -, h⟩ := bind_eq_done h
  cases h
  exact ⟨operand, rfl⟩

theorem tightExpr_const (src src' : Source) {s rest : List Char} {c : Constant} {pos : Position}
    (h : tightExpr src s = .done ⟨.const c, pos⟩ rest) :
    ∃ pos', tightExpr src' s = .done ⟨.const c, pos'⟩ rest := by
  have hfrom := (keeps_tightExpr (moves_nowhere src) s (Nat.lt_succ_self _)).1
  have hto := (keeps_tightExpr (moves_nowhere src') s (Nat.lt_succ_self _)).1
  rw [h, hto] at hfrom
  obtain ⟨⟨kind, pos'⟩, hdone, heq⟩ := Reply.map_eq_done hfrom
  refine ⟨pos', ?_⟩
  rw [hdone]
  cases kind <;> cases heq
  rfl

/-! ## Operands that start with a quote -/

section

variable {src : Source} {expr tight : Parser Expr} {c : Char} (hc : c = '"' ∨ c = '\'')
  {s : List Char}
include hc

theorem blanks_quote : blanks (c :: s) = .done () (c :: s) := by
  rcases hc with rfl | rfl <;> rfl

variable (src expr tight s) in
theorem refuses_quote :
    ∀ p ∈ [keywordExpr src expr tight, metaExpr src expr, parenExpr src expr, arrayExpr expr,
      braces expr], Refuses p (c :: s) := by
  intro p hp
  simp only [List.mem_cons, List.not_mem_nil, or_false] at hp
  rcases hc with rfl | rfl <;> rcases hp with rfl | rfl | rfl | rfl | rfl <;> exact ⟨_, rfl⟩

theorem refuses_number_quote : Refuses number (c :: s) := by
  refine refuses_number ?_
  intro d hd
  cases hd
  rcases hc with rfl | rfl <;> rfl

theorem constant_quote {w : String} {q : Quotes} {rest : List Char}
    (h : stringLiteral (c :: s) = .done (w, q) rest) :
    constant (c :: s) = .done (.const (.string w q)) rest := by
  have hnumber : Refuses (do return ExprKind.const (← number)) (c :: s) :=
    (refuses_number_quote hc).bind
  exact hnumber.or_eq.trans (or_of_done (bind_of_done h))

theorem string_of_constant {kind : ExprKind} {rest : List Char}
    (h : constant (c :: s) = .done kind rest) :
    ∃ w q, kind = .const (.string w q) ∧ stringLiteral (c :: s) = .done (w, q) rest := by
  cases hliteral : stringLiteral (c :: s) with
  | done literal rest' =>
    have hconst := constant_quote hc hliteral
    rw [h] at hconst
    cases hconst
    exact ⟨literal.1, literal.2, rfl, rfl⟩
  | refused place =>
    obtain ⟨p, hp, h⟩ := oneOf_eq_done h
    simp only [List.mem_cons, List.not_mem_nil, or_false] at hp
    rcases hp with rfl | rfl | rfl | rfl
    all_goals obtain ⟨_, middle, h, -⟩ := bind_eq_done h
    · exact absurd h (refuses_number_quote hc).not_done
    · rw [hliteral] at h
      cases h
    · rcases hc with rfl | rfl <;> cases h
    · rcases hc with rfl | rfl <;> cases h
  | exhausted =>
    have hanswers := eats_stringLiteral (c :: s)
    rw [hliteral] at hanswers
    exact hanswers.elim

theorem primary_quote {w : String} {q : Quotes} {rest : List Char}
    (h : stringLiteral (c :: s) = .done (w, q) rest) :
    primary src expr tight (c :: s) =
      .done ⟨.const (.string w q), src.span (c :: s) rest⟩ rest := by
  have hkind : oneOf (_ ++ [constant]) (c :: s) = .done (.const (.string w q)) rest :=
    oneOf_of_done (refuses_quote src expr tight hc s) (constant_quote hc h)
  rw [primary, bind_of_done (blanks_quote hc), bind_of_done (here_apply _)]
  exact (bind_of_done hkind).trans rfl

theorem string_of_primary {e : Expr} {rest : List Char}
    (h : primary src expr tight (c :: s) = .done e rest) :
    ∃ w q, e.kind = .const (.string w q) ∧ stringLiteral (c :: s) = .done (w, q) rest := by
  rw [primary, bind_of_done (blanks_quote hc), bind_of_done (here_apply _)] at h
  obtain ⟨kind, middle, hkind, h⟩ := bind_eq_done h
  cases h
  obtain ⟨p, hp, hkind⟩ := oneOf_eq_done hkind
  have hrefuses := refuses_quote src expr tight hc s
  rcases List.mem_append.mp (by simpa using hp :
    p ∈ [keywordExpr src expr tight, metaExpr src expr, parenExpr src expr, arrayExpr expr,
      braces expr] ++ [constant]) with hp | hp
  · exact absurd hkind (hrefuses p hp).not_done
  · cases List.mem_singleton.mp hp
    exact string_of_constant hc hkind

/-- No operator stands before a quote. -/
theorem leading_quote :
    leading src expr tight (c :: s) = postfixed src expr tight (c :: s) := by
  rw [leading, bind_of_done (blanks_quote hc), bind_of_done (here_apply _)]
  have hop : Refuses leadingOp (c :: s) := by
    rcases hc with rfl | rfl <;> exact ⟨_, rfl⟩
  rw [bind_of_done hop.optional_eq]

theorem tightExpr_quote {w : String} {q : Quotes}
    (h : stringLiteral (c :: s) = .done (w, q) []) :
    tightExpr src (c :: s) = .done ⟨.const (.string w q), src.span (c :: s) []⟩ [] := by
  rw [tightExpr_eq, leading_quote hc, postfixed, bind_of_done (blanks_quote hc),
    bind_of_done (here_apply _), bind_of_done (primary_quote hc h)]
  rfl

theorem string_of_tightExpr {k : Constant} {pos : Position} {rest : List Char}
    (h : tightExpr src (c :: s) = .done ⟨.const k, pos⟩ rest) :
    ∃ w q, k = .string w q ∧ stringLiteral (c :: s) = .done (w, q) rest := by
  rw [tightExpr_eq, leading_quote hc, postfixed, bind_of_done (blanks_quote hc),
    bind_of_done (here_apply _)] at h
  obtain ⟨first, middle, hfirst, h⟩ := bind_eq_done h
  obtain ⟨w, q, hkind, hliteral⟩ := string_of_primary hc hfirst
  have hany : Yields (fun _ => True) (exprAt src 0) := fun _ _ _ _ => trivial
  obtain ⟨rfl, rfl, -⟩ := grow_eq_first (P := ExprKind.IsConstant) (by
    -- A suffix would make the expression a field, a call, an index or an operator.
    intro e
    refine (yields_suffix hany e).optional.bind fun kind? hkind => ?_
    cases kind? with
    | none => exact Yields.pure (by simp)
    | some kind =>
      refine Yields.after fun stop => Yields.pure fun e' he' => ?_
      cases he'
      exact (hkind kind rfl).not_isConstant) h trivial
  cases hkind
  exact ⟨w, q, rfl, hliteral⟩

end

end Grammar

end HaxeMacro
