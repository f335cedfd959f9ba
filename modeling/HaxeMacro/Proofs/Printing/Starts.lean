import HaxeMacro.Proofs.Parser.Literals
import HaxeMacro.Proofs.Printing.Types

/-! # How texts of expressions start

The first token of a printed expression tells it from what else could stand in its place: it is no
blank and no `else`, it starts no type and no arrow, and no colon comes after it.
-/

namespace HaxeMacro

open Parser Token Grammar

/-! ## Characters -/

theorem Text.isDigit_mem {c : Char} (h : isDigit c = true) : c ∈ "0123456789".toList := by
  simp only [isDigit, Bool.and_eq_true, Nat.ble_eq, Char.reduceToNat] at h
  obtain ⟨n, hn, hc⟩ : ∃ n, n < 10 ∧ c.toNat = 48 + n := ⟨c.toNat - 48, by omega, by omega⟩
  have hall : ∀ n < 10, Char.ofNat (48 + n) ∈ "0123456789".toList := by decide
  have hmem := hall n hn
  rwa [← hc, Char.ofNat_toNat] at hmem

theorem refuses_text_second {word : String} {c d : Char} {w s : List Char}
    (hword : word.toList = c :: d :: w) (hs : ∀ e ∈ s.head?, e ≠ d) :
    Refuses (text word) (c :: s) := by
  refine ⟨c :: s, ?_⟩
  rw [text, hword, dropText?, if_pos rfl]
  cases s with
  | nil => rfl
  | cons e s => rw [dropText?, if_neg (Ne.symm (hs e rfl))]

namespace Grammar

/-- The characters that expressions start with, but for letters and quotes. -/
def marks : List Char := "0123456789([\x7b@~+-.!".toList

/-- What the text of an expression starts with. -/
def startsExpr (c : Char) : Bool := Text.startsName c || c == '"' || marks.contains c

theorem isBlank_of_startsExpr {c : Char} (h : startsExpr c = true) : Text.isBlank c = false := by
  have hall : ∀ c ∈ marks, Text.isBlank c = false := List.all_iff_forall_prop.mp (by decide)
  simp only [startsExpr, Bool.or_eq_true, beq_iff_eq, List.contains_iff_mem] at h
  rcases h with (hname | rfl) | hmark
  · exact isBlank_of_startsType (by simp [startsType, hname])
  · rfl
  · exact hall c hmark

/-- The text starts like an expression: with a word, a string literal or another token. -/
inductive Starts : List Char → Prop
  | word {word : String} {s : List Char} (hname : IsName word) (hother : word ≠ "else")
    (hends : Breaks s) (hcolon : Refuses (symbol ":") s) : Starts (chars word ++ s)
  | quoted (text : String) {s : List Char} (hcolon : Refuses (symbol ":") s) :
    Starts (quoteDouble text ++ s)
  | mark {c : Char} {s : List Char} (hc : c ∈ marks)
    (harrow : c = '-' → ∀ d ∈ s.head?, d ≠ '>') : Starts (c :: s)

namespace Starts

variable {s : List Char}

theorem head (h : Starts s) : ∃ c r, s = c :: r ∧ startsExpr c = true := by
  cases h with
  | @word word s hname =>
    obtain ⟨c, cs, hword, hc, -⟩ := hname
    exact ⟨c, cs ++ s, by rw [chars, hword, List.cons_append], by simp [startsExpr, hc]⟩
  | quoted text => exact ⟨'"', _, rfl, rfl⟩
  | mark hc => exact ⟨_, _, rfl, by simp [startsExpr, hc]⟩

theorem startsToken (h : Starts s) : StartsToken s := by
  obtain ⟨c, r, rfl, hc⟩ := h.head
  exact ⟨c, rfl, startsBlank_eq_false (by decide) hc⟩

theorem skipBlanks_eq (h : Starts s) : skipBlanks s = s := h.startsToken.skipBlanks_eq

theorem noArrow (h : Starts s) : Refuses (text "->") s := by
  cases h with
  | @word word s hname =>
    obtain ⟨c, cs, hword, hc, -⟩ := hname
    refine refuses_text (c := '-') (w := ['>']) rfl ?_
    rintro d hd rfl
    rw [chars, hword] at hd
    cases hd
    exact absurd hc (by decide)
  | quoted text => exact ⟨_, rfl⟩
  | @mark c s hc harrow =>
    by_cases hminus : c = '-'
    · subst hminus
      exact refuses_text_second (c := '-') (d := '>') (w := []) rfl (harrow rfl)
    · refine refuses_text (c := '-') (w := ['>']) rfl ?_
      rintro d hd rfl
      cases hd
      exact hminus rfl

end Starts

/-! ## Keywords and names -/

theorem keyword_eq_of_skipBlanks (word : String) {s t : List Char}
    (h : skipBlanks t = skipBlanks s) : keyword word t = keyword word s := by
  simp only [keyword, symbol, bind_apply, blanks, h]

theorem refuses_keyword_mark {word : String} (hword : word ∈ reserved) {t : List Char}
    (ht : ∀ c ∈ (skipBlanks t).head?, Text.startsName c = false) : Refuses (keyword word) t := by
  obtain ⟨d, w, heq, hd, -⟩ := isName_of_mem_reserved word hword
  have hblanks : blanks t = .done () (skipBlanks t) := rfl
  refine Refuses.bind (Refuses.next hblanks (refuses_text heq ?_))
  rintro c hc rfl
  rw [ht c hc] at hd
  cases hd

theorem refuses_name {s : List Char} (hs : ∀ c ∈ s.head?, Text.startsName c = false) :
    Refuses name s := by
  refine ⟨s, ?_⟩
  cases s with
  | nil => rfl
  | cons c s => rw [name, if_neg (by rw [hs c rfl]; decide)]

theorem refuses_stringLiteral {s : List Char} (hs : ∀ c ∈ s.head?, c ≠ '"' ∧ c ≠ '\'') :
    Refuses stringLiteral s := by
  refine ⟨s, ?_⟩
  unfold stringLiteral
  split
  · exact absurd rfl (hs '"' rfl).1
  · exact absurd rfl (hs '\'' rfl).2
  · rfl

theorem startsName_of_mem_marks : ∀ c ∈ marks, Text.startsName c = false :=
  List.all_iff_forall_prop.mp (by decide)

theorem Starts.refuses_else {s t : List Char} (h : Starts s) (ht : skipBlanks t = s) :
    Refuses (keyword "else") t := by
  cases h with
  | @word word s hname hother hends =>
    have helse : "else" ∈ reserved := by decide
    obtain ⟨place, hplace⟩ := refuses_keyword helse hname hends hother.symm
    refine ⟨place, ?_⟩
    rw [keyword_eq_of_skipBlanks "else" (ht.trans (hname.skipBlanks_append s).symm), hplace]
  | quoted text =>
    refine refuses_keyword_mark (by decide) fun c hc => ?_
    rw [ht] at hc
    cases hc
    rfl
  | mark hc =>
    refine refuses_keyword_mark (by decide) fun d hd => ?_
    rw [ht] at hd
    cases hd
    exact startsName_of_mem_marks _ hc

/-- What starts like an expression is no `name : value`. -/
theorem Starts.refuses_objectField {s t : List Char} (h : Starts s) (ht : skipBlanks t = s)
    (expr : Parser Expr) : Refuses (objectField expr) t := by
  have hblanks : blanks t = .done () s := by rw [blanks, ht]
  refine Refuses.next hblanks ?_
  cases h with
  | @word word s hname hother hends hcolon =>
    have hread : or (do return (← anyIdentifier, false))
        (do return ((← stringLiteral).1, true)) (chars word ++ s) = .done (word, false) s :=
      or_of_done (bind_of_done (anyIdentifier_append hname hends))
    exact Refuses.next hread hcolon.bind
  | @quoted text s hcolon =>
    have hname : Refuses (do return (← anyIdentifier, false)) (quoteDouble text ++ s) := by
      have hblanks : blanks (quoteDouble text ++ s) = .done () (quoteDouble text ++ s) := rfl
      exact Refuses.bind (Refuses.next hblanks ⟨_, rfl⟩)
    have hread : or (do return (← anyIdentifier, false))
        (do return ((← stringLiteral).1, true)) (quoteDouble text ++ s) = .done (text, true) s :=
      hname.or_eq.trans (bind_of_done (stringLiteral_append text s))
    exact Refuses.next hread hcolon.bind
  | @mark c s hc harrow =>
    have hmark : ∀ d ∈ (c :: s).head?, Text.startsName d = false ∧ d ≠ '"' ∧ d ≠ '\'' := by
      have hall : ∀ d ∈ marks, Text.startsName d = false ∧ d ≠ '"' ∧ d ≠ '\'' :=
        List.all_iff_forall_prop.mp (by decide)
      intro d hd
      cases hd
      exact hall _ hc
    have hblank : blanks (c :: s) = .done () (c :: s) := by
      rw [blanks, (Starts.mark hc harrow).skipBlanks_eq]
    have hname : Refuses (do return (← anyIdentifier, false)) (c :: s) :=
      Refuses.bind (Refuses.next hblank (refuses_name fun d hd => (hmark d hd).1))
    have hstring : Refuses (do return ((← stringLiteral).1, true)) (c :: s) :=
      (refuses_stringLiteral fun d hd => (hmark d hd).2).bind
    exact (hname.or hstring).bind

end Grammar

end HaxeMacro
