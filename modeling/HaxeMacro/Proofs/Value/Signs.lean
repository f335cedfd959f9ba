import HaxeMacro.Proofs.Parser.Operands
import HaxeMacro.Value.Constant

/-! # A minus before a whole number

The reader of expressions puts a minus into the text of the number after it. What this text writes
is the negated number where the number is digits only. After a minus, a number that has a sign of
its own or starts with `0x` is no number any more.
-/

namespace HaxeMacro

namespace Decimal

open Text

/-! ## Whole numbers -/

theorem fit64_true_of_false {n : Nat} {i : Int64} (h : fit64 false n = some i) :
    fit64 true n = some (-i) := by
  simp only [fit64, Bool.false_eq_true, if_false] at h
  split at h
  · rename_i hlt
    cases h
    rw [fit64, if_pos rfl, if_pos (Nat.le_of_lt hlt), Int64.ofInt_neg]
  · cases h

theorem readWhole_eq_some {base : Nat} {p : Char → Bool} {s : List Char} {i : Int64}
    (h : readWhole base p s = some i) : ∃ negative digits, readSign s = (negative, digits) ∧
      digits ≠ [] ∧ digits.all p = true ∧ fit64 negative (digitsValue base digits) = some i := by
  refine ⟨_, _, rfl, ?_⟩
  unfold readWhole at h
  simp only at h
  split at h
  · rename_i hdigits
    rw [Bool.and_eq_true, Bool.not_eq_true', List.isEmpty_eq_false_iff] at hdigits
    exact ⟨hdigits.1, hdigits.2, h⟩
  · cases h

theorem readInt64_eq_some {text : String} {i : Int64} (h : readInt64 text = some i) :
    (text.toList ≠ [] ∧ text.toList.all isDigit = true ∧
      fit64 false (digitsValue 10 text.toList) = some i) ∨
    (∃ c s, text.toList = c :: s ∧ (c = '-' ∨ c = '+')) ∨
    (∃ c s, text.toList = '0' :: c :: s ∧ (c = 'x' ∨ c = 'X')) := by
  unfold readInt64 at h
  split at h
  · exact Or.inr (Or.inr ⟨'x', _, by assumption, Or.inl rfl⟩)
  · exact Or.inr (Or.inr ⟨'X', _, by assumption, Or.inr rfl⟩)
  · obtain ⟨negative, digits, hsign, hne, hall, hfit⟩ := readWhole_eq_some h
    unfold readSign at hsign
    split at hsign
    · exact Or.inr (Or.inl ⟨'-', _, by assumption, Or.inl rfl⟩)
    · exact Or.inr (Or.inl ⟨'+', _, by assumption, Or.inr rfl⟩)
    · cases hsign
      exact Or.inl ⟨hne, hall, hfit⟩

/-! ## With a minus -/

theorem toList_minus (text : String) : ("-" ++ text).toList = '-' :: text.toList := by
  rw [String.toList_append]
  rfl

theorem readInt64_minus (text : String) :
    readInt64 ("-" ++ text) =
      if !text.toList.isEmpty && text.toList.all isDigit then
        fit64 true (digitsValue 10 text.toList)
      else none := by
  unfold readInt64
  rw [toList_minus]
  rfl

theorem readFloat_minus (text : String) :
    readFloat ("-" ++ text) =
      ((readWord text.toList).or (readDecimal text.toList)).map (fun size => -size) := by
  unfold readFloat
  rw [toList_minus]
  rfl

theorem readWord_cons_eq_none {c : Char} (s : List Char) (hc : c.toLower ≠ 'i')
    (hc' : c.toLower ≠ 'n') : readWord (c :: s) = none := by
  have hhead : ∀ {word : String}, String.ofList ((c :: s).map Char.toLower) = word →
      word.toList.head? = some c.toLower := by
    rintro word rfl
    rw [String.toList_ofList]
    rfl
  unfold readWord
  split
  · rename_i h
    exact absurd (Option.some.inj (hhead h)).symm hc
  · rename_i h
    exact absurd (Option.some.inj (hhead h)).symm hc
  · rename_i h
    exact absurd (Option.some.inj (hhead h)).symm hc'
  · rfl

theorem readFloat_minus_sign {text : String} {c : Char} {s : List Char}
    (htext : text.toList = c :: s) (hc : c = '-' ∨ c = '+') :
    text.toList.all isDigit = false ∧ readFloat ("-" ++ text) = none := by
  rw [readFloat_minus, htext]
  rcases hc with rfl | rfl
  · rw [readWord_cons_eq_none s (by decide) (by decide)]
    exact ⟨rfl, rfl⟩
  · rw [readWord_cons_eq_none s (by decide) (by decide)]
    exact ⟨rfl, rfl⟩

theorem readFloat_minus_hexadecimal {text : String} {c : Char} {s : List Char}
    (htext : text.toList = '0' :: c :: s) (hc : c = 'x' ∨ c = 'X') :
    text.toList.all isDigit = false ∧ readFloat ("-" ++ text) = none := by
  rw [readFloat_minus, htext, readWord_cons_eq_none _ (by decide) (by decide)]
  rcases hc with rfl | rfl <;> exact ⟨rfl, rfl⟩

end Decimal

namespace Constant

open Decimal Text

theorem readInt64_of_intValue {text : String} {i : Int64} (h : intValue text = some (.int i)) :
    readInt64 text = some i := by
  unfold intValue at h
  split at h
  · cases h
    assumption
  · obtain ⟨x, -, heq⟩ := Option.map_eq_some_iff.mp h
    cases heq

theorem intValue_minus {text : String} {i : Int64} (h : intValue text = some (.int i)) :
    intValue ("-" ++ text) = if text.toList.all isDigit then some (.int (-i)) else none := by
  have hother : text.toList.all isDigit = false ∧ readFloat ("-" ++ text) = none →
      intValue ("-" ++ text) = if text.toList.all isDigit then some (.int (-i)) else none := by
    rintro ⟨hall, hfloat⟩
    have hread : readInt64 ("-" ++ text) = none := by
      rw [readInt64_minus, hall, Bool.and_false]
      rfl
    rw [intValue, hread, hfloat, hall]
    rfl
  rcases readInt64_eq_some (readInt64_of_intValue h) with
    ⟨hne, hall, hfit⟩ | ⟨c, s, htext, hc⟩ | ⟨c, s, htext, hc⟩
  · have hread : readInt64 ("-" ++ text) = some (-i) := by
      rw [readInt64_minus, hall, List.isEmpty_eq_false_iff.mpr hne]
      exact fit64_true_of_false hfit
    rw [intValue, hread, if_pos hall]
  · exact hother (readFloat_minus_sign htext hc)
  · exact hother (readFloat_minus_hexadecimal htext hc)

end Constant

/-! ## In a text -/

/-- A whole number that a text is read as, read again with a minus before the text. -/
theorem Expr.parse_minus_int {text v : String} {pos place : Position}
    (h : Expr.parse text pos = .ok ⟨.const (.int v), place⟩) :
    ∃ place', Expr.parse ("- " ++ text) pos = .ok ⟨.const (.int ("-" ++ v)), place'⟩ := by
  obtain ⟨-, rest, hread, hblocked, hrest⟩ := Expr.parse_eq_const_iff.mp h
  have htext : ("- " ++ text).toList = '-' :: ' ' :: text.toList := by
    rw [String.toList_append]
    rfl
  obtain ⟨inner, hinner⟩ :=
    Grammar.tightExpr_const _ (.of ('-' :: ' ' :: text.toList) pos) hread
  simp only [Expr.parse_eq_const_iff, htext]
  exact ⟨_, rfl, rest, Grammar.tightExpr_minus _ hinner, hblocked, hrest⟩

/-- A text that is read as a whole number is read as one with a minus before it, too. Its value is
the negated one if the number is digits only; with a sign or in hexadecimal digits it has none. -/
theorem Expr.constant_minus {text v : String} {pos place : Position} {i : Int64}
    (h : Expr.parse text pos = .ok ⟨.const (.int v), place⟩)
    (hi : Expr.constant ⟨.const (.int v), place⟩ = .ok (.int i)) :
    ∃ e, Expr.parse ("- " ++ text) pos = .ok e ∧ e.kind = .const (.int ("-" ++ v)) ∧
      e.constant = if v.toList.all Text.isDigit then .ok (.int (-i))
        else .error (Constant.notConstant e.pos) := by
  obtain ⟨place', hparse⟩ := Expr.parse_minus_int h
  have hvalue : Constant.intValue v = some (.int i) := by
    rw [Expr.constant, ExprKind.constant, Constant.value] at hi
    split at hi
    · cases hi
      assumption
    · cases hi
  refine ⟨_, hparse, rfl, ?_⟩
  rw [Expr.constant, ExprKind.constant, Constant.value, Constant.intValue_minus hvalue]
  cases v.toList.all Text.isDigit <;> rfl

theorem Expr.constant_minus_digits :
    ∃ e, Expr.parse "- 42" ⟨0, 0, 0⟩ = .ok e ∧ e.constant = .ok (.int (-42)) := by
  obtain ⟨e, hparse, -, hvalue⟩ :=
    @Expr.constant_minus "42" "42" ⟨0, 0, 0⟩ ⟨0, 0, 2⟩ 42 rfl rfl
  exact ⟨e, hparse, hvalue⟩

/-- Sixteen in hexadecimal digits, and five below zero: neither has a value after a minus. -/
theorem Expr.constant_minus_none :
    (∃ e e', Expr.parse "0x10" ⟨0, 0, 0⟩ = .ok e ∧ e.constant = .ok (.int 16) ∧
      Expr.parse ("- " ++ "0x10") ⟨0, 0, 0⟩ = .ok e' ∧ ∀ v, e'.constant ≠ .ok v) ∧
    (∃ e e', Expr.parse "-5" ⟨0, 0, 0⟩ = .ok e ∧ e.constant = .ok (.int (-5)) ∧
      Expr.parse ("- " ++ "-5") ⟨0, 0, 0⟩ = .ok e' ∧ ∀ v, e'.constant ≠ .ok v) := by
  have hnone : ∀ {v : String} {i : Int64} {pos : Position}, Constant.intValue v = some (.int i) →
      v.toList.all Text.isDigit = false →
      ∀ w, Expr.constant ⟨.const (.int ("-" ++ v)), pos⟩ ≠ .ok w := by
    intro v i pos hvalue hall w h
    rw [Expr.constant, ExprKind.constant, Constant.value, Constant.intValue_minus hvalue,
      hall] at h
    cases h
  have hhex : Expr.parse "0x10" ⟨0, 0, 0⟩ = .ok ⟨.const (.int "0x10"), ⟨0, 0, 4⟩⟩ := rfl
  have hminus : Expr.parse "-5" ⟨0, 0, 0⟩ = .ok ⟨.const (.int "-5"), ⟨0, 0, 2⟩⟩ := rfl
  obtain ⟨_, hhex'⟩ := Expr.parse_minus_int hhex
  obtain ⟨_, hminus'⟩ := Expr.parse_minus_int hminus
  exact ⟨⟨_, _, hhex, rfl, hhex', hnone rfl rfl⟩, ⟨_, _, hminus, rfl, hminus', hnone rfl rfl⟩⟩

end HaxeMacro
