import HaxeMacro.Parser.Entry
import HaxeMacro.Proofs.Fragment.Revision
import HaxeMacro.Proofs.Parser.Productions

/-! # Expressions that are read are plain

The grammar has no place for an expression inside a type, and none for the metadata of a variable or
a parameter. So the visits of an expression that is read come by all expressions in it.
-/

namespace HaxeMacro

open Parser Token Grammar

structure ExprKind.Plain (kind : ExprKind) : Prop where
  types : kind.HasPlainTypes
  children : ∀ e ∈ kind.children, e.Plain

theorem ExprKind.Plain.expr {e : Expr} (h : e.kind.Plain) : e.Plain := by
  cases e
  exact .mk h.types h.children

theorem Expr.plain_ident (name : String) (pos : Position) : (Expr.ident name pos).Plain :=
  .mk trivial (by simp [ExprKind.children])

namespace ExprKind

theorem Primary.plain {kind : ExprKind} (h : kind.Primary Expr.Plain Expr.Plain) :
    kind.Plain := by
  cases h with
  | const => exact ⟨trivial, by simp [children]⟩
  | paren h => exact ⟨trivial, by simpa [children] using h⟩
  | object h => exact ⟨trivial, List.forall_mem_map.mpr h⟩
  | array h => exact ⟨trivial, h⟩
  | block h => exact ⟨trivial, h⟩
  | new hpath h => exact ⟨hpath, h⟩
  | vars h =>
    refine ⟨fun v hv => ⟨(h v hv).type, (h v hv).annotations⟩, fun e hmem => ?_⟩
    obtain ⟨v, hv, hinit⟩ := List.mem_filterMap.mp hmem
    exact (h v hv).init e hinit
  | function _ hparams hret h =>
    refine ⟨⟨fun p hp => ⟨(hparams p hp).type, (hparams p hp).annotations⟩, hret, rfl⟩, ?_⟩
    refine List.forall_mem_append.mpr ⟨fun e hmem => ?_, by simpa using h⟩
    obtain ⟨p, hp, hdefault⟩ := List.mem_filterMap.mp hmem
    exact (hparams p hp).default e hdefault
  | @forIn range _ name place pos hrange h =>
    have hhead : Expr.Plain ⟨.binary .isIn (.ident name place) range, pos⟩ :=
      .mk trivial (by simp [children, Expr.plain_ident, hrange])
    exact ⟨trivial, by simp [children, hhead, h]⟩
  | cond htest hyes hno => exact ⟨trivial, by simpa [children, htest, hyes] using hno⟩
  | loop htest h => exact ⟨trivial, by simp [children, htest, h]⟩
  | ret h => exact ⟨trivial, by simpa [children] using h⟩
  | brk => exact ⟨trivial, by simp [children]⟩
  | cont => exact ⟨trivial, by simp [children]⟩
  | untyped h => exact ⟨trivial, by simpa [children] using h⟩
  | throw h => exact ⟨trivial, by simpa [children] using h⟩
  | castTo h htype => exact ⟨by simpa [HasPlainTypes] using htype, by simpa [children] using h⟩
  | cast h => exact ⟨by simp [HasPlainTypes], by simpa [children] using h⟩
  | checkType h htype => exact ⟨htype, by simpa [children] using h⟩
  | annotated hentry h => exact ⟨trivial, List.forall_mem_append.mpr ⟨hentry, by simpa using h⟩⟩

theorem Suffixed.plain {e : Expr} {kind : ExprKind} (he : e.Plain)
    (h : kind.Suffixed Expr.Plain e) : kind.Plain := by
  cases h with
  | field => exact ⟨trivial, by simpa [children] using he⟩
  | call h => exact ⟨trivial, List.forall_mem_cons.mpr ⟨he, h⟩⟩
  | index h => exact ⟨trivial, by simp [children, he, h]⟩
  | unary => exact ⟨trivial, by simpa [children] using he⟩

end ExprKind

namespace Grammar

theorem applyLeading_plain (op : UnaryOp) {e : Expr} (h : e.Plain) :
    (applyLeading op e).Plain := by
  unfold applyLeading
  split
  · exact ⟨trivial, by simp [ExprKind.children]⟩
  · exact ⟨trivial, by simp [ExprKind.children]⟩
  · exact ⟨trivial, by simpa [ExprKind.children] using h⟩

theorem plain_leading (src : Source) {expr tight : Parser Expr} (he : Yields Expr.Plain expr)
    (ht : Yields Expr.Plain tight) : Yields Expr.Plain (leading src expr tight) :=
  yields_leading src he ht (fun _ h => h.plain) (fun _ _ he h => h.plain he.expr)
    (fun _ h => h.expr) (fun op _ _ h => (applyLeading_plain op h).expr)

/-! ## Operators -/

section

variable {binary : Nat → Parser Expr} (hb : ∀ least, Yields Expr.Plain (binary least))
include hb

theorem plain_ternaryTail {test : Expr} (h : test.Plain) :
    Yields Expr.Plain (ternaryTail binary test) := by
  refine (hb 0).bind fun yes hyes => Yields.after fun _ => ?_
  refine (hb ternaryLevel).bind fun no hno => Yields.pure ?_
  exact .mk trivial (by simp [ExprKind.children, h, hyes, hno])

theorem plain_operatorTail (least : Nat) {left : Expr} (h : left.Plain) :
    Yields (fun e? => ∀ e ∈ e?, Expr.Plain e) (operatorTail binary least left) := by
  refine Yields.after fun op? => ?_
  cases op? with
  | none => exact Yields.pure (by simp)
  | some op =>
    dsimp only
    split
    · exact Yields.pure (by simp)
    · refine (hb (rightLevel op)).bind fun right hright => Yields.pure ?_
      have hresult : Expr.Plain ⟨.binary op left right, left.pos.union right.pos⟩ :=
        .mk trivial (by simp [ExprKind.children, h, hright])
      simpa using hresult

theorem plain_binaryStep (least : Nat) {left : Expr} (h : left.Plain) :
    Yields (fun e? => ∀ e ∈ e?, Expr.Plain e) (binaryStep binary least left) := by
  have hasked (asks : Bool) : Yields (fun e? => ∀ e ∈ e?, Expr.Plain e)
      (if asks then do return some (← ternaryTail binary left)
        else operatorTail binary least left) := by
    cases asks with
    | false => exact plain_operatorTail hb least h
    | true => exact (plain_ternaryTail hb h).bind fun e he => Yields.pure (by simpa using he)
  unfold binaryStep
  split
  · exact Yields.after hasked
  · exact hasked false

end

theorem plain_operand_binary (src : Source) (steps : Nat) :
    Yields Expr.Plain (operand src steps) ∧
      ∀ least, Yields Expr.Plain (binary src steps least) := by
  induction steps with
  | zero => exact ⟨fun s e rest h => (by cases h), fun least s e rest h => (by cases h)⟩
  | succ steps ih =>
    obtain ⟨hoperand, hbinary⟩ := ih
    refine ⟨plain_leading src (hbinary 0) hoperand, fun least => ?_⟩
    exact hoperand.bind fun first hfirst =>
      Yields.grow (fun left h => plain_binaryStep hbinary least h) hfirst

theorem plain_expression (src : Source) : Yields Expr.Plain (expression src) :=
  fun s e rest h => (plain_operand_binary src (stepsFor s)).2 0 s e rest h

end Grammar

/-- An expression that is read from a text is plain. -/
theorem Expr.plain_of_parse {text : String} {pos : Position} {e : Expr}
    (h : Expr.parse text pos = .ok e) : e.Plain := by
  obtain ⟨rest, hread⟩ := Entry.done_of_readAll h
  exact Grammar.plain_expression _ _ _ _ hread

end HaxeMacro
