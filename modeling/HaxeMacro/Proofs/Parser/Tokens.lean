import HaxeMacro.Parser.Token
import HaxeMacro.Proofs.Parser.Keeps

/-! # Tokens read what they stand for

Every token answers on every text, and reads at least one character where it succeeds.
-/

namespace HaxeMacro

variable {α : Type}

namespace Parser

theorem Keeps.eats_left {β : Type} {f : α → β} {k : Nat} {p : Parser α} {q : Parser β}
    (h : ∀ n, Keeps f k n p q) : Eats k p := fun s => (h (s.length + 1) s (Nat.lt_succ_self _)).2

theorem Keeps.eats {k : Nat} {p : Parser α} (h : ∀ n, Keeps id k n p p) : Eats k p :=
  Keeps.eats_left h

end Parser

namespace Token

open Parser

theorem skip_suffix (inside : Inside) (s t : List Char) (hs : s <:+ t)
    (hstart : ∀ start, inside = .block start → start <:+ t) : skip inside s <:+ t := by
  have hnothing : ∀ start, Inside.nothing = .block start → start <:+ t := by
    intro start h
    cases h
  have hline : ∀ start, Inside.line = .block start → start <:+ t := by
    intro start h
    cases h
  fun_induction skip inside s with
  | case1 => exact hs
  | case2 r ih | case3 r ih | case4 r ih | case5 r ih =>
    exact ih ((List.suffix_cons _ _).trans hs) hnothing
  | case6 r ih =>
    have hr : r <:+ '/' :: '/' :: r := (List.suffix_cons _ _).trans (List.suffix_cons _ _)
    exact ih (hr.trans hs) hline
  | case7 r ih =>
    have hr : r <:+ '/' :: '*' :: r := (List.suffix_cons _ _).trans (List.suffix_cons _ _)
    refine ih (hr.trans hs) fun start h => ?_
    cases h
    exact hs
  | case8 => exact hs
  | case9 => exact hs
  | case10 r ih => exact ih ((List.suffix_cons _ _).trans hs) hnothing
  | case11 c r _ ih => exact ih ((List.suffix_cons _ _).trans hs) hline
  | case12 start => exact hstart start rfl
  | case13 start r ih =>
    have hr : r <:+ '*' :: '/' :: r := (List.suffix_cons _ _).trans (List.suffix_cons _ _)
    exact ih (hr.trans hs) hnothing
  | case14 start c r _ ih => exact ih ((List.suffix_cons _ _).trans hs) hstart

theorem skipBlanks_suffix (s : List Char) : skipBlanks s <:+ s := by
  refine skip_suffix .nothing s s (List.suffix_refl s) fun start h => ?_
  cases h

theorem eats_blanks : Eats 0 blanks := fun s =>
  ⟨skipBlanks_suffix s, (skipBlanks_suffix s).length_le⟩

theorem dropText?_eq_some {word s rest : List Char} (h : dropText? word s = some rest) :
    s = word ++ rest := by
  induction word generalizing s with
  | nil =>
    cases h
    rfl
  | cons w ws ih =>
    cases s with
    | nil => cases h
    | cons c s =>
      rw [dropText?] at h
      split at h
      · rename_i hc
        subst hc
        rw [ih h]
        rfl
      · cases h

theorem eats_text (word : String) : Eats word.toList.length (text word) := by
  intro s
  unfold text
  cases h : dropText? word.toList s with
  | none => exact List.suffix_refl s
  | some rest =>
    rw [dropText?_eq_some h]
    refine ⟨List.suffix_append _ _, ?_⟩
    rw [List.length_append]
    omega

theorem keeps_text {word : String} (n : Nat) (h : 0 < word.toList.length) :
    Keeps id 1 n (text word) (text word) := ((eats_text word).keeps n).mono h (Nat.le_refl n)

theorem keeps_symbol {word : String} (n : Nat) (h : 0 < word.toList.length) :
    Keeps id 1 n (symbol word) (symbol word) :=
  (eats_blanks.keeps n).skip fun _ => keeps_text n h

theorem eats_symbol {word : String} (h : 0 < word.toList.length) : Eats 1 (symbol word) :=
  Keeps.eats fun n => keeps_symbol n h

theorem eats_char (p : Char → Bool) : Eats 1 (char p) := by
  intro s
  cases s with
  | nil => exact List.suffix_refl []
  | cons c rest =>
    rw [char]
    split
    · exact ⟨List.suffix_cons c rest, Nat.le_refl _⟩
    · exact List.suffix_refl _

theorem keeps_keyword {word : String} (n : Nat) (h : 0 < word.toList.length) :
    Keeps id 1 n (keyword word) (keyword word) :=
  (keeps_symbol n h).andThen fun _ => ((eats_char _).keeps n).lacks

theorem eats_name : Eats 1 name := by
  intro s
  cases s with
  | nil => exact List.suffix_refl []
  | cons c rest =>
    rw [name]
    split
    · have hrest := List.dropWhile_suffix (l := rest) Text.continuesName
      refine ⟨hrest.trans (List.suffix_cons c rest), ?_⟩
      have hlength := hrest.length_le
      rw [List.length_cons]
      omega
    · exact List.suffix_refl _

theorem eats_anyIdentifier : Eats 1 anyIdentifier := by
  refine Keeps.eats fun n => ?_
  exact (eats_blanks.keeps n).skip fun _ => eats_name.keeps n

theorem eats_identifier : Eats 1 identifier := by
  intro s
  have hblanks := skipBlanks_suffix s
  have hname := eats_name (skipBlanks s)
  unfold identifier
  simp only [bind_apply, blanks, here]
  cases h : name (skipBlanks s) with
  | done word rest =>
    rw [h] at hname
    simp only
    split
    · exact hblanks
    · refine ⟨hname.1.trans hblanks, ?_⟩
      have hrest := hname.2
      have hlength := hblanks.length_le
      omega
  | refused place =>
    rw [h] at hname
    exact List.IsSuffix.trans hname hblanks
  | exhausted =>
    rw [h] at hname
    exact hname.elim

theorem eats_span1 (p : Char → Bool) : Eats 1 (span1 p) := by
  intro s
  unfold span1
  split
  · exact List.suffix_refl s
  · rename_i c cs h
    refine ⟨List.dropWhile_suffix p, ?_⟩
    have hsplit := congrArg List.length (List.takeWhile_append_dropWhile (p := p) (l := s))
    rw [List.length_append, h, List.length_cons] at hsplit
    omega

/-! ## Numbers -/

theorem eats_exponent : Eats 1 exponent := by
  refine Keeps.eats fun n => ?_
  refine ((eats_char _).keeps n).andThen fun e => ?_
  refine ((eats_char _).keeps n).optional.andThen fun sign => ?_
  refine ((eats_span1 _).keeps n).weaken.andThen fun digits => ?_
  refine Keeps.pure ?_
  cases sign <;> rfl

theorem eats_number : Eats 1 number := by
  have hhex : Eats 1 hexNumber := by
    refine Keeps.eats fun n => ?_
    refine (keeps_text n (by decide)).andThen fun _ => ?_
    refine ((eats_span1 _).keeps n).weaken.andThen fun digits => ?_
    exact Keeps.pure rfl
  have hpoint : Eats 1 pointNumber := by
    refine Keeps.eats fun n => ?_
    refine ((eats_span1 _).keeps n).andThen fun whole => ?_
    refine (keeps_text n (by decide)).weaken.andThen fun _ => ?_
    refine ((eats_span1 _).keeps n).weaken.andThen fun fraction => ?_
    refine (eats_exponent.keeps n).optional.andThen fun power => ?_
    refine Keeps.pure ?_
    cases power <;> rfl
  have hpower : Eats 1 powerNumber := by
    refine Keeps.eats fun n => ?_
    refine ((eats_span1 _).keeps n).andThen fun whole => ?_
    refine (eats_exponent.keeps n).weaken.andThen fun power => ?_
    exact Keeps.pure rfl
  have hwhole : Eats 1 wholeNumber := by
    refine Keeps.eats fun n => ?_
    refine ((eats_span1 _).keeps n).andThen fun digits => ?_
    exact Keeps.pure rfl
  refine Keeps.eats fun n => ?_
  exact (hhex.keeps n).or ((hpoint.keeps n).or ((hpower.keeps n).or (hwhole.keeps n)))

/-! ## Strings and regular expressions -/

theorem closeString_suffix {quote : Char} {s cs rest : List Char}
    (h : closeString quote s = some (cs, rest)) : rest <:+ s := by
  fun_induction closeString quote s generalizing cs with
  | case1 => cases h
  | case2 =>
    cases h
    exact List.suffix_cons _ _
  | case3 => cases h
  | case4 _ e r ih =>
    obtain ⟨⟨cs', rest'⟩, hclose, heq⟩ := Option.map_eq_some_iff.mp h
    cases heq
    exact (ih hclose).trans ((List.suffix_cons _ _).trans (List.suffix_cons _ _))
  | case5 _ r _ _ ih =>
    obtain ⟨⟨cs', rest'⟩, hclose, heq⟩ := Option.map_eq_some_iff.mp h
    cases heq
    exact (ih hclose).trans (List.suffix_cons _ _)

theorem stringFrom_answers {start s : List Char} {c quote : Char} {quotes : Quotes}
    (hstart : start = c :: s) : (stringFrom start quote quotes s).Answers 1 start := by
  unfold stringFrom
  cases h : closeString quote s with
  | none => exact List.suffix_refl start
  | some result =>
    have hrest := closeString_suffix h
    subst hstart
    refine ⟨hrest.trans (List.suffix_cons c s), ?_⟩
    have hlength := hrest.length_le
    rw [List.length_cons]
    omega

theorem eats_stringLiteral : Eats 1 stringLiteral := by
  intro s
  unfold stringLiteral
  split
  · exact stringFrom_answers rfl
  · exact stringFrom_answers rfl
  · exact List.suffix_refl s

theorem closePattern_suffix {s cs rest : List Char} (h : closePattern s = some (cs, rest)) :
    rest <:+ s := by
  fun_induction closePattern s generalizing cs with
  | case1 => cases h
  | case2 =>
    cases h
    exact List.suffix_cons _ _
  | case3 => cases h
  | case4 e r ih =>
    obtain ⟨⟨cs', rest'⟩, hclose, heq⟩ := Option.map_eq_some_iff.mp h
    cases heq
    exact (ih hclose).trans ((List.suffix_cons _ _).trans (List.suffix_cons _ _))
  | case5 c r _ _ _ ih =>
    obtain ⟨⟨cs', rest'⟩, hclose, heq⟩ := Option.map_eq_some_iff.mp h
    cases heq
    exact (ih hclose).trans (List.suffix_cons _ _)

theorem eats_regexpLiteral : Eats 1 regexpLiteral := by
  intro s
  unfold regexpLiteral
  split
  · rename_i s
    split
    · rename_i pattern rest h
      have hrest := (List.dropWhile_suffix (l := rest) Text.isAsciiLetter).trans
        (closePattern_suffix h)
      have hs : s <:+ '~' :: '/' :: s := (List.suffix_cons _ _).trans (List.suffix_cons _ _)
      refine ⟨hrest.trans hs, ?_⟩
      have hlength := hrest.length_le
      rw [List.length_cons, List.length_cons]
      omega
    · exact List.suffix_refl _
  · exact List.suffix_refl s

/-! ## Operators -/

theorem eats_oneOf {k : Nat} {ps : List (Parser α)} (h : ∀ p ∈ ps, Eats k p) :
    Eats k (oneOf ps) := by
  induction ps with
  | nil => exact fun s => List.suffix_refl s
  | cons p ps ih =>
    have hp := h p List.mem_cons_self
    cases ps with
    | nil => exact hp
    | cons q ps =>
      have hps := ih fun r hr => h r (List.mem_cons_of_mem _ hr)
      exact Keeps.eats fun n => (hp.keeps n).or (hps.keeps n)

theorem eats_binarySymbol {word : String} (op : BinaryOp) (h : 0 < word.toList.length) :
    Eats 1 (binarySymbol word op) := by
  refine Keeps.eats fun n => ?_
  refine (keeps_text n h).andThen fun _ => ?_
  split
  · refine (keeps_text n (by decide)).lacks.andThen fun _ => ?_
    exact Keeps.pure rfl
  · exact Keeps.pure rfl

theorem eats_binaryOp : Eats 1 binaryOp := by
  have hsymbols : ∀ entry ∈ binarySymbols, 0 < entry.1.toList.length := by decide
  refine Keeps.eats fun n => ?_
  refine (eats_blanks.keeps n).skip fun _ => Eats.keeps (eats_oneOf fun p hp => ?_) n
  obtain ⟨⟨word, op⟩, hentry, rfl⟩ := List.mem_map.mp hp
  exact eats_binarySymbol op (hsymbols _ hentry)

theorem eats_ternaryMark : Eats 1 ternaryMark := by
  refine Keeps.eats fun n => ?_
  exact (keeps_symbol n (by decide)).andThen fun _ => ((eats_char _).keeps n).lacks

theorem eats_textAs {word : String} (op : UnaryOp) (h : 0 < word.toList.length) :
    Eats 1 (do text word; return op) :=
  Keeps.eats fun n => (keeps_text n h).andThen fun _ => Keeps.pure rfl

theorem eats_leadingOp : Eats 1 leadingOp := by
  refine eats_oneOf fun p hp => ?_
  simp only [List.mem_cons, List.not_mem_nil, or_false] at hp
  rcases hp with rfl | rfl | rfl | rfl | rfl | rfl
  · exact eats_textAs .increment (by decide)
  · exact eats_textAs .decrement (by decide)
  · exact eats_textAs .spread (by decide)
  · exact eats_textAs .not (by decide)
  · exact eats_textAs .neg (by decide)
  · refine Keeps.eats fun n => ?_
    refine (keeps_text n (by decide)).andThen fun _ => ?_
    exact (keeps_text n (by decide)).lacks.andThen fun _ => Keeps.pure rfl

theorem eats_trailingOp : Eats 1 trailingOp := by
  have hops : Eats 1 (oneOf [do text "++"; return UnaryOp.increment,
      do text "--"; return UnaryOp.decrement]) := by
    refine Keeps.eats fun n => ?_
    refine ((eats_textAs .increment ?_).keeps n).or ((eats_textAs .decrement ?_).keeps n) <;> decide
  exact Keeps.eats fun n => (eats_blanks.keeps n).skip fun _ => hops.keeps n

end Token

end HaxeMacro
