import HaxeMacro.Fragment.Printer
import HaxeMacro.Proofs.Parser.Repetitions
import HaxeMacro.Proofs.Parser.Tokens

/-! # Words at the start of a text

What the tokens read of a text that starts with a word: the word, if it ends there, and nothing
else.
-/

namespace HaxeMacro

namespace Text

/-- A word goes on with the characters of names and with those of other scripts. -/
theorem continuesWord_eq (c : Char) :
    continuesWord c = (continuesName c || inRanges (wordRanges.drop 3) c.toNat) := by
  have hranges : isLetterOrNumber c = (isDigit c ||
      (('A'.toNat.ble c.toNat && c.toNat.ble 'Z'.toNat) ||
        (('a'.toNat.ble c.toNat && c.toNat.ble 'z'.toNat) ||
          inRanges (wordRanges.drop 3) c.toNat))) := rfl
  rw [continuesWord, hranges, continuesName, isAsciiLetter]
  ac_rfl

theorem continuesWord_of_continuesName {c : Char} (h : continuesName c = true) :
    continuesWord c = true := by
  rw [continuesWord_eq, h, Bool.true_or]

/-- The other scripts come after all of ASCII. -/
theorem continuesWord_of_ascii {c : Char} (h : c.toNat < 128) :
    continuesWord c = continuesName c := by
  have hstart : (wordRanges.drop 3).all (fun r => Nat.ble 128 r.1) = true := by decide +kernel
  have hother : inRanges (wordRanges.drop 3) c.toNat = false := by
    refine List.any_eq_false.mpr fun r hr hin => ?_
    have hfirst := Nat.ble_eq.mp (List.all_eq_true.mp hstart r hr)
    rw [Bool.and_eq_true, Nat.ble_eq] at hin
    omega
  rw [continuesWord_eq, hother, Bool.or_false]

theorem continuesName_of_isDigit {c : Char} (h : isDigit c = true) : continuesName c = true := by
  rw [continuesName, h, Bool.or_true, Bool.true_or]

theorem continuesName_of_isAsciiLetter {c : Char} (h : isAsciiLetter c = true) :
    continuesName c = true := by
  rw [continuesName, h, Bool.true_or, Bool.true_or]

theorem continuesName_of_isHexDigit {c : Char} (h : isHexDigit c = true) :
    continuesName c = true := by
  simp only [isHexDigit, continuesName, isAsciiLetter, Bool.or_eq_true, Bool.and_eq_true,
    Nat.ble_eq] at *
  rcases h with (h | h) | h
  · exact Or.inl (Or.inr h)
  · exact Or.inl (Or.inl (Or.inl ⟨h.1, Nat.le_trans h.2 (by decide)⟩))
  · exact Or.inl (Or.inl (Or.inr ⟨h.1, Nat.le_trans h.2 (by decide)⟩))

theorem not_isDigit_of_startsName {c : Char} (h : startsName c = true) : isDigit c = false := by
  rw [Bool.eq_false_iff]
  intro hdigit
  simp only [startsName, isAsciiLetter, isDigit, Bool.or_eq_true, Bool.and_eq_true, Nat.ble_eq,
    beq_iff_eq] at *
  have h0 : '0'.toNat = 48 := rfl
  have h9 : '9'.toNat = 57 := rfl
  have ha : 'a'.toNat = 97 := rfl
  have hA : 'A'.toNat = 65 := rfl
  rcases h with (h | h) | rfl
  · omega
  · omega
  · exact absurd hdigit (by decide)

end Text

namespace Token

open Parser Text

/-! ## Where a word ends -/

/-- No word and no number that ends before the text goes on in it. -/
structure Breaks (s : List Char) : Prop where
  word : ∀ c ∈ s.head?, continuesWord c = false
  point : ∀ r, s = '.' :: r → ∀ c ∈ r.head?, isDigit c = false

theorem breaks_nil : Breaks [] := by
  refine ⟨?_, ?_⟩
  · intro c hc
    cases hc
  · intro r hr
    cases hr

/-- An ASCII mark ends a word. -/
theorem breaks_mark {c : Char} (s : List Char)
    (hc : c.toNat < 128 ∧ continuesName c = false ∧ c ≠ '.') : Breaks (c :: s) := by
  obtain ⟨hascii, hname, hpoint⟩ := hc
  refine ⟨?_, ?_⟩
  · intro d hd
    cases hd
    exact (continuesWord_of_ascii hascii).trans hname
  · intro r hr
    exact absurd (List.cons.inj hr).1 hpoint

theorem breaks_point {s : List Char} (hs : ∀ c ∈ s.head?, isDigit c = false) :
    Breaks ('.' :: s) := by
  refine ⟨?_, ?_⟩
  · intro c hc
    cases hc
    exact continuesWord_of_ascii (by decide)
  · intro r hr
    cases hr
    exact hs

theorem Breaks.not_head {p : Char → Bool} {s : List Char} (hs : Breaks s)
    (hp : ∀ c, p c = true → continuesName c = true) : ∀ c ∈ s.head?, p c = false := by
  intro c hc
  rw [Bool.eq_false_iff]
  intro hpc
  have hword := continuesWord_of_continuesName (hp c hpc)
  rw [hs.word c hc] at hword
  cases hword

section

variable {p : Char → Bool} {cs s : List Char} (hcs : ∀ c ∈ cs, p c = true)
  (hs : ∀ c ∈ s.head?, p c = false)
include hcs hs

theorem takeWhile_append_stop : (cs ++ s).takeWhile p = cs := by
  rw [List.takeWhile_append_of_pos hcs]
  cases s with
  | nil => exact List.append_nil cs
  | cons c s =>
    rw [List.takeWhile_cons, hs c rfl, if_neg Bool.false_ne_true, List.append_nil]

theorem dropWhile_append_stop : (cs ++ s).dropWhile p = s := by
  rw [List.dropWhile_append_of_pos hcs]
  cases s with
  | nil => rfl
  | cons c s => rw [List.dropWhile_cons, hs c rfl, if_neg Bool.false_ne_true]

end

/-! ## Blanks -/

/-- The characters that blanks and comments start with. -/
def startsBlank (c : Char) : Bool := [' ', '\t', '\r', '\n', '/'].contains c

theorem skipBlanks_cons {c : Char} (s : List Char) (hc : startsBlank c = false) :
    skipBlanks (c :: s) = c :: s := by
  unfold skipBlanks
  rw [skip]
  all_goals
    intros
    subst_vars
    exact absurd hc (by decide)

theorem skipBlanks_space (s : List Char) : skipBlanks (' ' :: s) = skipBlanks s := rfl

/-- No blank stands before the first token of the text, and there is one. -/
def StartsToken (text : List Char) : Prop := ∃ c ∈ text.head?, startsBlank c = false

namespace StartsToken

variable {text : List Char}

theorem append (h : StartsToken text) (s : List Char) : StartsToken (text ++ s) := by
  obtain ⟨c, hc, hblank⟩ := h
  refine ⟨c, ?_, hblank⟩
  rw [List.head?_append, hc]
  rfl

theorem skipBlanks_eq (h : StartsToken text) : skipBlanks text = text := by
  obtain ⟨c, hc, hblank⟩ := h
  cases text with
  | nil => cases hc
  | cons d text =>
    cases hc
    exact skipBlanks_cons _ hblank

theorem skipBlanks_append (h : StartsToken text) (s : List Char) :
    skipBlanks (text ++ s) = text ++ s := (h.append s).skipBlanks_eq

theorem blanks_space (h : StartsToken text) (s : List Char) :
    blanks (' ' :: (text ++ s)) = .done () (text ++ s) := by
  rw [blanks, skipBlanks_space, h.skipBlanks_append]

end StartsToken

theorem startsBlank_eq_false {p : Char → Bool} (hp : [' ', '\t', '\r', '\n', '/'].any p = false)
    {c : Char} (h : p c = true) : startsBlank c = false := by
  rw [Bool.eq_false_iff]
  intro hblank
  exact List.any_eq_false.mp hp c (List.contains_iff_mem.mp hblank) h

theorem startsBlank_of_startsName {c : Char} (h : startsName c = true) : startsBlank c = false :=
  startsBlank_eq_false (by decide) h

/-! ## Fixed texts -/

theorem dropText?_append (word s : List Char) : dropText? word (word ++ s) = some s := by
  induction word with
  | nil => rfl
  | cons c word ih =>
    rw [List.cons_append, dropText?, if_pos rfl]
    exact ih

theorem text_append (word : String) (s : List Char) :
    text word (chars word ++ s) = .done () s := by
  rw [text, chars, dropText?_append]

theorem refuses_text {word : String} {c : Char} {w s : List Char} (hword : word.toList = c :: w)
    (hs : ∀ d ∈ s.head?, d ≠ c) : Refuses (text word) s := by
  refine ⟨s, ?_⟩
  rw [text, hword]
  cases s with
  | nil => rfl
  | cons d s => rw [dropText?, if_neg (Ne.symm (hs d rfl))]

/-! ## Names -/

/-- The text has the shape of a name; it may be a keyword. -/
def IsName (word : String) : Prop :=
  ∃ c cs, word.toList = c :: cs ∧ startsName c = true ∧ ∀ d ∈ cs, continuesName d = true

theorem IsName.all {word : String} (h : IsName word) :
    ∀ c ∈ word.toList, continuesName c = true := by
  obtain ⟨c, cs, hword, hc, hcs⟩ := h
  intro d hd
  rw [hword] at hd
  rcases List.mem_cons.mp hd with rfl | hd
  · exact continuesName_of_startsName hc
  · exact hcs d hd

theorem IsName.startsToken {word : String} (h : IsName word) : StartsToken (chars word) := by
  obtain ⟨c, cs, hword, hc, -⟩ := h
  refine ⟨c, ?_, startsBlank_of_startsName hc⟩
  rw [chars, hword]
  rfl

theorem IsName.skipBlanks_append {word : String} (h : IsName word) (s : List Char) :
    skipBlanks (chars word ++ s) = chars word ++ s := h.startsToken.skipBlanks_append s

theorem isName_of_name {s rest : List Char} {word : String} (h : name s = .done word rest) :
    IsName word := by
  unfold name at h
  split at h
  · split at h
    · cases h
      refine ⟨_, _, String.toList_ofList, by assumption, ?_⟩
      intro d hd
      exact (List.all_eq_true.mp List.all_takeWhile) d hd
    · cases h
  · cases h

theorem name_append {word : String} {s : List Char} (h : IsName word) (hs : Breaks s) :
    name (chars word ++ s) = .done word s := by
  obtain ⟨c, cs, hword, hc, hcs⟩ := h
  have hofList : String.ofList (c :: cs) = word := by
    rw [← hword, String.ofList_toList]
  have hstop := hs.not_head (p := continuesName) fun _ h => h
  rw [chars, hword, List.cons_append, name, if_pos hc, takeWhile_append_stop hcs hstop,
    dropWhile_append_stop hcs hstop, hofList]

theorem anyIdentifier_append {word : String} {s : List Char} (h : IsName word) (hs : Breaks s) :
    anyIdentifier (chars word ++ s) = .done word s := by
  have hblanks : blanks (chars word ++ s) = .done () (chars word ++ s) := by
    rw [blanks, h.skipBlanks_append]
  exact (bind_of_done hblanks).trans (name_append h hs)

theorem isName_of_anyIdentifier {s rest : List Char} {word : String}
    (h : anyIdentifier s = .done word rest) : IsName word := by
  obtain ⟨_, middle, -, h⟩ := bind_eq_done h
  exact isName_of_name h

theorem identifier_of_name {word : String} {s rest : List Char}
    (h : name (skipBlanks s) = .done word rest) :
    identifier s = if reserved.contains word then .refused (skipBlanks s) else .done word rest := by
  simp only [identifier, bind_apply, blanks, here, h]
  split <;> rfl

theorem identifier_append {word : String} {s : List Char} (h : IsName word)
    (hfree : reserved.contains word = false) (hs : Breaks s) :
    identifier (chars word ++ s) = .done word s := by
  have hname : name (skipBlanks (chars word ++ s)) = .done word s := by
    rw [h.skipBlanks_append, name_append h hs]
  rw [identifier_of_name hname, hfree]
  rfl

theorem identifier_eq_done {word : String} {s rest : List Char}
    (h : identifier s = .done word rest) :
    IsName word ∧ reserved.contains word = false ∧ name (skipBlanks s) = .done word rest := by
  obtain ⟨_, middle, hblanks, h⟩ := bind_eq_done h
  cases hblanks
  obtain ⟨_, middle, hhere, h⟩ := bind_eq_done h
  cases hhere
  obtain ⟨word', rest', hname, h⟩ := bind_eq_done h
  split at h
  · cases h
  · cases h
    rename_i hfree
    exact ⟨isName_of_name hname, Bool.eq_false_iff.mpr hfree, hname⟩

/-! ## Keywords -/

theorem isName_of_mem_reserved : ∀ word ∈ reserved, IsName word := by
  have hall : reserved.all (fun word =>
      word.toList.head?.any startsName && word.toList.tail.all continuesName) = true := by decide
  intro word hword
  have hshape := List.all_eq_true.mp hall word hword
  rw [Bool.and_eq_true, Option.any_eq_true, List.all_eq_true] at hshape
  obtain ⟨⟨c, hc, hstarts⟩, hcs⟩ := hshape
  refine ⟨c, word.toList.tail, ?_, hstarts, hcs⟩
  cases hlist : word.toList with
  | nil =>
    rw [hlist] at hc
    cases hc
  | cons d ds =>
    rw [hlist] at hc
    cases hc
    rfl

theorem keyword_append {word : String} {s : List Char} (h : word ∈ reserved) (hs : Breaks s) :
    keyword word (chars word ++ s) = .done () s := by
  have hblanks : blanks (chars word ++ s) = .done () (chars word ++ s) := by
    rw [blanks, (isName_of_mem_reserved word h).skipBlanks_append]
  have hsymbol : symbol word (chars word ++ s) = .done () s :=
    (bind_of_done hblanks).trans (text_append word s)
  have hchar : Refuses (char continuesWord) s := by
    refine ⟨s, ?_⟩
    have hword := hs.word
    cases s with
    | nil => rfl
    | cons c s =>
      rw [char, hword c rfl]
      rfl
  rw [keyword, bind_of_done hsymbol, hchar.lacks_eq]

/-- A word at the start of a text is not read as the start of another one. -/
theorem refuses_keyword {word other : String} {s : List Char} (hword : word ∈ reserved)
    (hother : IsName other) (hs : Breaks s) (hne : word ≠ other) :
    Refuses (keyword word) (chars other ++ s) := by
  have hskip : skipBlanks (chars other ++ s) = chars other ++ s := hother.skipBlanks_append s
  cases htext : dropText? word.toList (chars other ++ s) with
  | none =>
    refine ⟨chars other ++ s, ?_⟩
    simp only [keyword, symbol, bind_apply, blanks, hskip, text, htext]
  | some rest =>
    have hsymbol : symbol word (chars other ++ s) = .done () rest := by
      simp only [symbol, bind_apply, blanks, hskip, text, htext]
    refine Refuses.next hsymbol ?_
    rcases List.append_eq_append_iff.mp (dropText?_eq_some htext) with
      ⟨more, hmore, hs'⟩ | ⟨more, hmore, hrest⟩
    · cases more with
      | nil =>
        rw [List.append_nil] at hmore
        exact absurd (String.toList_inj.mp hmore) hne
      | cons c more =>
        -- The keyword would reach into the text after the word.
        have hc : c ∈ word.toList := by
          rw [hmore]
          exact List.mem_append_right _ List.mem_cons_self
        have hname := (isName_of_mem_reserved word hword).all c hc
        have hnot := hs.word c (by rw [hs']; rfl)
        rw [continuesWord_of_continuesName hname] at hnot
        cases hnot
    · cases more with
      | nil =>
        rw [List.append_nil] at hmore
        exact absurd (String.toList_inj.mp hmore.symm) hne
      | cons c more =>
        have hc : c ∈ other.toList := by
          change other.toList = _ at hmore
          rw [hmore]
          exact List.mem_append_right _ List.mem_cons_self
        have hword := continuesWord_of_continuesName (hother.all c hc)
        subst hrest
        have hread : char continuesWord (c :: more ++ s) = .done c (more ++ s) := by
          rw [List.cons_append, char, if_pos hword]
        exact refuses_lacks_of_done hread

end Token

end HaxeMacro
