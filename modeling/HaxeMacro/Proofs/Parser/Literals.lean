import HaxeMacro.Proofs.Parser.Words

/-! # Literals at the start of a text

A number or a regular expression that was read once is read again wherever a word may end after it;
a string literal, between double quotes, whatever it holds.
-/

namespace HaxeMacro.Token

open Parser Text

/-! ## Digits -/

section

variable {p : Char → Bool} {ds s rest : List Char}

theorem span1_append (hds : ds ≠ []) (hall : ∀ d ∈ ds, p d = true)
    (hs : ∀ c ∈ s.head?, p c = false) : span1 p (ds ++ s) = .done ds s := by
  unfold span1
  rw [takeWhile_append_stop hall hs, dropWhile_append_stop hall hs]
  cases ds with
  | nil => exact absurd rfl hds
  | cons d ds => rfl

theorem span1_eq_done (h : span1 p s = .done ds rest) : ds ≠ [] ∧ ∀ d ∈ ds, p d = true := by
  unfold span1 at h
  split at h
  · cases h
  · rename_i c cs htake
    cases h
    refine ⟨List.cons_ne_nil c cs, ?_⟩
    intro d hd
    rw [← htake] at hd
    exact (List.all_eq_true.mp List.all_takeWhile) d hd

theorem refuses_span1 (hs : ∀ c ∈ s.head?, p c = false) : Refuses (span1 p) s := by
  refine ⟨s, ?_⟩
  unfold span1
  cases s with
  | nil => rfl
  | cons c s =>
    rw [List.takeWhile_cons, hs c rfl]
    rfl

end

theorem head_digits {ds s : List Char} {c : Char} (hds : ds ≠ [])
    (hall : ∀ d ∈ ds, isDigit d = true) (hc : c ∈ (ds ++ s).head?) : isDigit c = true := by
  cases ds with
  | nil => exact absurd rfl hds
  | cons d ds =>
    cases hc
    exact hall _ List.mem_cons_self

/-! ## Numbers -/

def IsPower (power : List Char) : Prop :=
  ∃ e sign ds, power = e :: sign ++ ds ∧ (e = 'e' ∨ e = 'E') ∧
    (sign = [] ∨ sign = ['+'] ∨ sign = ['-']) ∧ ds ≠ [] ∧ ∀ d ∈ ds, isDigit d = true

theorem char_eq_done {p : Char → Bool} {s rest : List Char} {c : Char}
    (h : char p s = .done c rest) : s = c :: rest ∧ p c = true := by
  cases s with
  | nil => cases h
  | cons d s =>
    rw [char] at h
    split at h
    · cases h
      exact ⟨rfl, by assumption⟩
    · cases h

theorem isPower_of_exponent {s rest power : List Char} (h : exponent s = .done power rest) :
    IsPower power := by
  obtain ⟨e, _, he, h⟩ := bind_eq_done h
  obtain ⟨sign, _, hsign, h⟩ := bind_eq_done h
  obtain ⟨ds, _, hds, h⟩ := bind_eq_done h
  cases h
  obtain ⟨hne, hall⟩ := span1_eq_done hds
  refine ⟨e, sign.toList, ds, rfl, ?_, ?_, hne, hall⟩
  · have he := (char_eq_done he).2
    simpa using he
  · rcases optional_eq_done hsign with ⟨c, rfl, hc⟩ | ⟨rfl, -⟩
    · have hc := (char_eq_done hc).2
      simpa using hc
    · exact Or.inl rfl

theorem IsPower.head {power : List Char} (h : IsPower power) (s : List Char) :
    ∀ c ∈ (power ++ s).head?, isDigit c = false ∧ c ≠ '.' ∧ c ≠ 'x' := by
  obtain ⟨e, sign, ds, rfl, he, -⟩ := h
  intro c hc
  cases hc
  rcases he with rfl | rfl <;> decide

theorem exponent_append {power s : List Char} (h : IsPower power) (hs : Breaks s) :
    exponent (power ++ s) = .done power s := by
  obtain ⟨e, sign, ds, rfl, he, hsign, hne, hall⟩ := h
  have hdigits : span1 isDigit (ds ++ s) = .done ds s :=
    span1_append hne hall (hs.not_head fun _ => continuesName_of_isDigit)
  have hfirst : char (fun c => c == 'e' || c == 'E') (e :: sign ++ ds ++ s) =
      .done e (sign ++ (ds ++ s)) := by
    rw [List.append_assoc, List.cons_append, char]
    rcases he with rfl | rfl <;> rfl
  have hmark : optional (char fun c => c == '+' || c == '-') (sign ++ (ds ++ s)) =
      .done sign.head? (ds ++ s) := by
    rcases hsign with rfl | rfl | rfl
    · -- Without a sign, the first digit is there.
      refine Refuses.optional_eq ⟨ds ++ s, ?_⟩
      have hhead := fun c => head_digits (s := s) (c := c) hne hall
      rw [List.nil_append]
      cases hds : ds ++ s with
      | nil => rfl
      | cons c cs =>
        rw [hds] at hhead
        have hc := hhead c rfl
        rw [char, if_neg]
        simp only [Bool.or_eq_true, beq_iff_eq]
        rintro (rfl | rfl) <;> exact absurd hc (by decide)
    · rfl
    · rfl
  unfold exponent
  rw [bind_of_done hfirst, bind_of_done hmark, bind_of_done hdigits]
  rcases hsign with rfl | rfl | rfl <;> rfl

theorem refuses_exponent {s : List Char} (hs : Breaks s) : Refuses exponent s := by
  refine Refuses.bind ⟨s, ?_⟩
  cases s with
  | nil => rfl
  | cons c s =>
    rw [char, if_neg]
    have hword := hs.word c rfl
    simp only [Bool.or_eq_true, beq_iff_eq]
    rintro (rfl | rfl) <;> exact absurd hword (by decide +kernel)

/-- A decimal number does not start with `0x`. -/
theorem refuses_hexNumber {ds s : List Char} (hne : ds ≠ []) (hall : ∀ d ∈ ds, isDigit d = true)
    (hs : ∀ c ∈ s.head?, c ≠ 'x') : Refuses hexNumber (ds ++ s) := by
  have hsecond : ∀ ds : List Char, (∀ d ∈ ds, isDigit d = true) → ∀ c ∈ (ds ++ s).head?, c ≠ 'x' := by
    intro ds hall c hc
    cases ds with
    | nil => exact hs c hc
    | cons d ds =>
      cases hc
      rintro rfl
      exact absurd (hall _ List.mem_cons_self) (by decide)
  cases ds with
  | nil => exact absurd rfl hne
  | cons d ds =>
    have htail := hsecond ds fun d hd => hall d (List.mem_cons_of_mem _ hd)
    have hx : dropText? ['x'] (ds ++ s) = none := by
      cases hds : ds ++ s with
      | nil => rfl
      | cons c cs =>
        rw [hds] at htail
        rw [dropText?, if_neg (Ne.symm (htail c rfl))]
    have hword : "0x".toList = ['0', 'x'] := rfl
    refine Refuses.bind ⟨d :: ds ++ s, ?_⟩
    rw [text, hword, List.cons_append, dropText?, hx]
    split <;> simp_all

section
variable {s rest t : List Char} {c : Constant} (ht : Breaks t)
include ht

theorem hexNumber_append (h : hexNumber s = .done c rest) :
    hexNumber (c.print ++ t) = .done c t := by
  obtain ⟨_, _, -, h⟩ := bind_eq_done h
  obtain ⟨ds, _, hds, h⟩ := bind_eq_done h
  cases h
  obtain ⟨hne, hall⟩ := span1_eq_done hds
  have hprint : (Constant.int (String.ofList ('0' :: 'x' :: ds))).print ++ t =
      chars "0x" ++ (ds ++ t) := by
    simp [Constant.print, chars]
  have hdigits : span1 isHexDigit (ds ++ t) = .done ds t :=
    span1_append hne hall (ht.not_head fun _ => continuesName_of_isHexDigit)
  rw [hprint, hexNumber, bind_of_done (text_append _ _), bind_of_done hdigits]
  rfl

theorem optional_exponent_append {power? : Option (List Char)}
    (h : optional exponent s = .done power? rest) :
    optional exponent (power?.getD [] ++ t) = .done power? t ∧
      ∀ c ∈ (power?.getD [] ++ t).head?, isDigit c = false := by
  rcases optional_eq_done h with ⟨ds, rfl, hds⟩ | ⟨rfl, -⟩
  · have hds := isPower_of_exponent hds
    exact ⟨optional_of_done (exponent_append hds ht), fun c hc => (hds.head t c hc).1⟩
  · exact ⟨(refuses_exponent ht).optional_eq, ht.not_head fun _ => continuesName_of_isDigit⟩

theorem pointNumber_append (h : pointNumber s = .done c rest) :
    Refuses hexNumber (c.print ++ t) ∧ pointNumber (c.print ++ t) = .done c t := by
  obtain ⟨whole, _, hwhole, h⟩ := bind_eq_done h
  obtain ⟨_, _, -, h⟩ := bind_eq_done h
  obtain ⟨fraction, _, hfraction, h⟩ := bind_eq_done h
  obtain ⟨power, _, hpower, h⟩ := bind_eq_done h
  cases h
  obtain ⟨hwne, hwall⟩ := span1_eq_done hwhole
  obtain ⟨hfne, hfall⟩ := span1_eq_done hfraction
  obtain ⟨htail, hstop⟩ := optional_exponent_append ht hpower
  have hprint : (Constant.float (String.ofList (whole ++ '.' :: fraction ++ power.getD []))).print
      ++ t = whole ++ ('.' :: (fraction ++ (power.getD [] ++ t))) := by
    simp [Constant.print, chars]
  rw [hprint]
  constructor
  · refine refuses_hexNumber hwne hwall ?_
    intro c hc
    cases hc
    decide
  · have hw : span1 isDigit (whole ++ ('.' :: (fraction ++ (power.getD [] ++ t)))) =
        .done whole ('.' :: (fraction ++ (power.getD [] ++ t))) := by
      refine span1_append hwne hwall ?_
      intro c hc
      cases hc
      rfl
    have hpoint : text "." ('.' :: (fraction ++ (power.getD [] ++ t))) =
        .done () (fraction ++ (power.getD [] ++ t)) := text_append "." _
    have hf := span1_append hfne hfall hstop
    rw [pointNumber, bind_of_done hw, bind_of_done hpoint, bind_of_done hf, bind_of_done htail]
    rfl

theorem powerNumber_append (h : powerNumber s = .done c rest) :
    Refuses hexNumber (c.print ++ t) ∧ Refuses pointNumber (c.print ++ t) ∧
      powerNumber (c.print ++ t) = .done c t := by
  obtain ⟨whole, _, hwhole, h⟩ := bind_eq_done h
  obtain ⟨power, _, hpower, h⟩ := bind_eq_done h
  cases h
  obtain ⟨hwne, hwall⟩ := span1_eq_done hwhole
  have hpower := isPower_of_exponent hpower
  have hprint : (Constant.float (String.ofList (whole ++ power))).print ++ t =
      whole ++ (power ++ t) := by
    simp [Constant.print, chars]
  have hw := span1_append hwne hwall fun c hc => (hpower.head t c hc).1
  rw [hprint]
  refine ⟨refuses_hexNumber hwne hwall fun c hc => (hpower.head t c hc).2.2,
    Refuses.next hw (Refuses.bind ?_), ?_⟩
  · exact refuses_text (w := []) rfl fun c hc => (hpower.head t c hc).2.1
  · rw [powerNumber, bind_of_done hw, bind_of_done (exponent_append hpower ht)]
    rfl

theorem wholeNumber_append (h : wholeNumber s = .done c rest) :
    Refuses hexNumber (c.print ++ t) ∧ Refuses pointNumber (c.print ++ t) ∧
      Refuses powerNumber (c.print ++ t) ∧ wholeNumber (c.print ++ t) = .done c t := by
  obtain ⟨ds, _, hds, h⟩ := bind_eq_done h
  cases h
  obtain ⟨hne, hall⟩ := span1_eq_done hds
  have hprint : (Constant.int (String.ofList ds)).print ++ t = ds ++ t := by
    simp [Constant.print, chars]
  have hw := span1_append hne hall (ht.not_head fun _ => continuesName_of_isDigit)
  rw [hprint]
  refine ⟨refuses_hexNumber hne hall ?_, Refuses.next hw ?_,
    Refuses.next hw (refuses_exponent ht).bind, ?_⟩
  · rintro c hc rfl
    exact absurd (ht.word _ hc) (by decide +kernel)
  · -- A point may follow, but no digit after it.
    cases t with
    | nil => exact ⟨[], rfl⟩
    | cons c t =>
      by_cases hc : c = '.'
      · subst hc
        exact Refuses.next (text_append "." t) (refuses_span1 (ht.point t rfl)).bind
      · refine Refuses.bind (refuses_text (c := '.') (w := []) rfl ?_)
        intro d hd
        cases hd
        exact hc
  · rw [wholeNumber, bind_of_done hw]
    rfl

end

/-- A number that was read is read again where a word may end after it. -/
theorem number_append {c : Constant} {s rest t : List Char} (h : number s = .done c rest)
    (ht : Breaks t) : number (c.print ++ t) = .done c t := by
  obtain ⟨p, hp, h⟩ := oneOf_eq_done h
  simp only [List.mem_cons, List.not_mem_nil, or_false] at hp
  rcases hp with rfl | rfl | rfl | rfl
  · exact or_of_done (hexNumber_append ht h)
  · obtain ⟨hhex, hpoint⟩ := pointNumber_append ht h
    exact hhex.or_eq.trans (or_of_done hpoint)
  · obtain ⟨hhex, hpoint, hpower⟩ := powerNumber_append ht h
    exact hhex.or_eq.trans (hpoint.or_eq.trans (or_of_done hpower))
  · obtain ⟨hhex, hpoint, hpower, hwhole⟩ := wholeNumber_append ht h
    exact hhex.or_eq.trans (hpoint.or_eq.trans (hpower.or_eq.trans hwhole))

/-- A number starts with a digit. -/
theorem refuses_number {s : List Char} (hs : ∀ c ∈ s.head?, isDigit c = false) :
    Refuses number s := by
  refine refuses_oneOf fun p hp => ?_
  simp only [List.mem_cons, List.not_mem_nil, or_false] at hp
  rcases hp with rfl | rfl | rfl | rfl
  · refine Refuses.bind (refuses_text (c := '0') (w := ['x']) rfl ?_)
    rintro c hc rfl
    exact absurd (hs _ hc) (by decide)
  · exact (refuses_span1 hs).bind
  · exact (refuses_span1 hs).bind
  · exact (refuses_span1 hs).bind

theorem number_eq_done {c : Constant} {s rest : List Char} (h : number s = .done c rest) :
    ∃ d ds, c.print = d :: ds ∧ isDigit d = true := by
  have hread := number_append h breaks_nil
  rw [List.append_nil] at hread
  cases hprint : c.print with
  | nil =>
    rw [hprint] at hread
    refine absurd hread (Refuses.not_done (refuses_number ?_))
    intro d hd
    cases hd
  | cons d ds =>
    rw [hprint] at hread
    cases hdigit : isDigit d with
    | true => exact ⟨d, ds, rfl, hdigit⟩
    | false =>
      refine absurd hread (Refuses.not_done (refuses_number ?_))
      intro e he
      cases he
      exact hdigit

/-! ## Strings and regular expressions -/

theorem closeString_escapeDouble (c : Char) (s : List Char) :
    closeString '"' (escapeDouble c ++ s) =
      (closeString '"' s).map fun (cs, rest) => (c :: cs, rest) := by
  unfold escapeDouble
  split
  · simp [closeString, unescape]
  · simp [closeString, unescape]
  · simp [closeString, unescape]
  · simp [closeString, unescape]
  · simp [closeString, unescape]
  · rename_i hquote hslash _ _ _
    rw [List.singleton_append, closeString.eq_def]
    simp only [if_neg hquote, if_neg hslash]

theorem closeString_escape (cs t : List Char) :
    closeString '"' (cs.flatMap escapeDouble ++ '"' :: t) = some (cs, t) := by
  induction cs with
  | nil =>
    rw [List.flatMap_nil, List.nil_append, closeString.eq_def]
    exact if_pos rfl
  | cons c cs ih =>
    rw [List.flatMap_cons, List.append_assoc, closeString_escapeDouble, ih]
    rfl

theorem stringLiteral_append (word : String) (t : List Char) :
    stringLiteral (quoteDouble word ++ t) = .done (word, .double) t := by
  have hclose := closeString_escape word.toList t
  have hquote : quoteDouble word ++ t = '"' :: (word.toList.flatMap escapeDouble ++ '"' :: t) := by
    simp [quoteDouble, chars]
  rw [hquote, stringLiteral, stringFrom, hclose]
  simp only [String.ofList_toList]

theorem closePattern_append {s cs rest : List Char} (h : closePattern s = some (cs, rest))
    (t : List Char) : closePattern (cs ++ '/' :: t) = some (cs, t) := by
  fun_induction closePattern s generalizing cs with
  | case1 => cases h
  | case2 =>
    cases h
    rfl
  | case3 => cases h
  | case4 e r ih =>
    obtain ⟨⟨cs', rest'⟩, hclose, heq⟩ := Option.map_eq_some_iff.mp h
    cases heq
    have hrest := ih hclose
    simp only [List.cons_append, closePattern, hrest, Option.map]
  | case5 c r hslash hline hescape ih =>
    obtain ⟨⟨cs', rest'⟩, hclose, heq⟩ := Option.map_eq_some_iff.mp h
    cases heq
    have hrest := ih hclose
    rw [List.cons_append, closePattern, hrest]
    · rfl
    · exact hslash
    · exact hline
    · -- A backslash is followed by the character that it escapes.
      intro e r' hc
      subst hc
      cases r with
      | nil => cases hclose
      | cons e' r => exact absurd rfl (hescape e' r rfl)

theorem regexpLiteral_append {c : Constant} {s rest t : List Char}
    (h : regexpLiteral s = .done c rest) (ht : Breaks t) :
    regexpLiteral (c.print ++ t) = .done c t := by
  unfold regexpLiteral at h
  split at h
  · split at h
    · rename_i pattern rest hclose
      cases h
      have hagain := closePattern_append hclose (rest.takeWhile isAsciiLetter ++ t)
      have hflags : ∀ d ∈ rest.takeWhile isAsciiLetter, isAsciiLetter d = true :=
        List.all_eq_true.mp List.all_takeWhile
      have hstop := ht.not_head (p := isAsciiLetter) fun _ => continuesName_of_isAsciiLetter
      have hprint : (Constant.regexp (String.ofList pattern)
          (String.ofList (rest.takeWhile isAsciiLetter))).print ++ t =
            '~' :: '/' :: (pattern ++ '/' :: (rest.takeWhile isAsciiLetter ++ t)) := by
        simp [Constant.print, chars]
      rw [hprint]
      simp only [regexpLiteral, hagain, takeWhile_append_stop hflags hstop,
        dropWhile_append_stop hflags hstop]
    · cases h
  · cases h

end HaxeMacro.Token
