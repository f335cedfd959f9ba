import HaxeMacro.Fragment.Equality
import HaxeMacro.Parser.Entry
import HaxeMacro.Proofs.Parser.Expressions

/-! # Where a text stands

A text that stands at `base` is read as it is read at the origin. Only the positions differ: each
lies in the file of `base`, and as far after the start of `base` as an offset can say.
-/

namespace HaxeMacro

open Parser Grammar

/-! ## Offsets after another offset -/

namespace Position

def origin : Position := ⟨0, 0, 0⟩

/-- The offset `n` after `base`; it never passes the largest offset. -/
def after (base n : UInt32) : UInt32 := clamp (base.toNat + n.toNat)

/-- The position `q` of a text that is read at the origin, for the text that stands at `base`. -/
def rebase (base q : Position) : Position :=
  if q.isNull then q else ⟨base.file, after base.min q.min, after base.min q.max⟩

theorem toNat_after (base n : UInt32) :
    (after base n).toNat = Min.min (base.toNat + n.toNat) limit := toNat_clamp _

theorem after_clamp (base : UInt32) (n : Nat) : after base (clamp n) = clamp (base.toNat + n) := by
  have hn : (clamp n).toNat = Min.min n limit := toNat_clamp n
  have hsum : (clamp (base.toNat + n)).toNat = Min.min (base.toNat + n) limit := toNat_clamp _
  apply UInt32.toNat_inj.mp
  rw [toNat_after, hn, hsum]
  omega

theorem after_least (base m n : UInt32) :
    after base (least m n) = least (after base m) (after base n) := by
  apply UInt32.toNat_inj.mp
  rw [toNat_after, toNat_least, toNat_least, toNat_after, toNat_after]
  omega

theorem after_most (base m n : UInt32) :
    after base (most m n) = most (after base m) (after base n) := by
  apply UInt32.toNat_inj.mp
  rw [toNat_after, toNat_most, toNat_most, toNat_after, toNat_after]
  omega

theorem rebase_of_isNull (base : Position) {q : Position} (h : q.isNull = true) :
    base.rebase q = q := by
  rw [rebase, if_pos h]

theorem rebase_of_not_isNull (base : Position) {q : Position} (h : q.isNull = false) :
    base.rebase q = ⟨base.file, after base.min q.min, after base.min q.max⟩ := by
  simp [rebase, h]

theorem isNull_rebase {base : Position} (hbase : base.isNull = false) (q : Position) :
    (base.rebase q).isNull = q.isNull := by
  cases hq : q.isNull with
  | true => rw [rebase_of_isNull base hq, hq]
  | false =>
    rw [rebase_of_not_isNull base hq]
    exact hbase

theorem rebase_union {base : Position} (hbase : base.isNull = false) (p q : Position) :
    base.rebase (p.union q) = (base.rebase p).union (base.rebase q) := by
  have hp' := isNull_rebase hbase p
  have hq' := isNull_rebase hbase q
  cases hp : p.isNull with
  | true => rw [union_of_isNull_left hp, union_of_isNull_left (hp'.trans hp)]
  | false =>
    cases hq : q.isNull with
    | true =>
      rw [union_of_isNull_right hp hq, union_of_isNull_right (hp'.trans hp) (hq'.trans hq)]
    | false =>
      have hnull : (⟨p.file, least p.min q.min, most p.max q.max⟩ : Position).isNull = false := hp
      rw [union_of_not_isNull hp hq, union_of_not_isNull (hp'.trans hp) (hq'.trans hq),
        rebase_of_not_isNull base hnull, rebase_of_not_isNull base hp,
        rebase_of_not_isNull base hq, after_least, after_most]

end Position

/-! ## What is read there -/

namespace Grammar

theorem moves_rebase {base : Position} (hbase : base.isNull = false) (text : List Char) :
    Moves base.rebase (Source.of text .origin) (Source.of text base) := by
  refine ⟨fun start stop => ?_, Position.rebase_union hbase⟩
  have horigin : ((Source.of text .origin).span start stop).isNull = false := rfl
  have hoffset : ∀ rest, (Source.of text base).offset rest =
      Position.after base.min ((Source.of text .origin).offset rest) := by
    intro rest
    rw [Source.offset, Source.offset, Position.after_clamp]
    congr 2
    exact (Nat.zero_add _).symm
  rw [Position.rebase_of_not_isNull base horigin, Source.span, hoffset, hoffset]
  rfl

end Grammar

/-- The refusal of a text that is read at the origin, for the text that stands at `base`. -/
def ParseError.rebase (base : Position) : ParseError → ParseError
  | .unexpected entry found pos => .unexpected entry found (base.rebase pos)
  | .trailing entry rest pos => .trailing entry rest (base.rebase pos)
  | .empty entry _ => .empty entry base

theorem Entry.readAll_rebase {α : Type} {k : Nat} {entry : Entry} {parser : Source → Parser α}
    {move : α → α} {s : List Char} {base : Position} (hbase : base.isNull = false)
    (hkeeps : Keeps move k (s.length + 1) (parser (Source.of s .origin))
      (parser (Source.of s base))) :
    readAll entry parser s base =
      ((readAll entry parser s .origin).map move).mapError (·.rebase base) := by
  have hspan := (moves_rebase hbase s).span
  cases hblank : Text.allBlank s with
  | true =>
    rw [readAll_of_allBlank hblank, readAll_of_allBlank hblank]
    rfl
  | false =>
    obtain ⟨hread, hanswers⟩ := hkeeps s (Nat.lt_succ_self _)
    simp only [readAll, hblank, Bool.false_eq_true, if_false, hread]
    cases hreply : parser (Source.of s .origin) s with
    | done a rest =>
      simp only [Reply.map]
      cases hrest : skipTrailing rest with
      | nil => rfl
      | cons c left =>
        simp only [hspan]
        rfl
    | refused place =>
      simp only [Reply.map, hspan]
      rfl
    | exhausted =>
      rw [hreply] at hanswers
      exact hanswers.elim

/-- Reading does not depend on where the text stands: from any place it gives what it gives at the
origin, with the positions moved there; or it refuses as it does there. -/
theorem parse_rebase (text : String) (base : Position) (hbase : base.file ≠ Position.noFile) :
    Expr.parse text base =
      ((Expr.parse text .origin).map (·.relocate base.rebase)).mapError (·.rebase base) ∧
    Metadata.parse text base =
      ((Metadata.parse text .origin).map (·.relocate base.rebase)).mapError (·.rebase base) ∧
    ComplexType.parse text base =
      ((ComplexType.parse text .origin).map (·.relocate base.rebase)).mapError
        (·.rebase base) := by
  have hnull : base.isNull = false := by simpa [Position.isNull] using hbase
  have hmoves := moves_rebase hnull text.toList
  refine ⟨?_, ?_, ?_⟩
  · exact Entry.readAll_rebase hnull (keeps_exprAt hmoves 0)
  · exact Entry.readAll_rebase hnull (keeps_metadataEntry hmoves)
  · exact Entry.readAll_rebase hnull (keeps_complexType hmoves)

theorem parse_near_limit :
    (3 : UInt32) ≠ Position.noFile ∧
    (Expr.parse "1 + 2" ⟨3, 4294967293, 4294967293⟩).toOption.any (· ==
      ⟨.binary .add ⟨.const (.int "1"), ⟨3, 4294967293, 4294967294⟩⟩
        ⟨.const (.int "2"), ⟨3, 4294967295, 4294967295⟩⟩, ⟨3, 4294967293, 4294967295⟩⟩) =
      true := by
  have hfile : (3 : UInt32) ≠ Position.noFile := by decide
  refine ⟨hfile, ?_⟩
  rw [(parse_rebase "1 + 2" ⟨3, 4294967293, 4294967293⟩ hfile).1]
  decide +kernel

end HaxeMacro
