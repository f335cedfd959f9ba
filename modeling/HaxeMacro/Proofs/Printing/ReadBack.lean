import HaxeMacro.Proofs.Printing.Follows

/-! # Reading expressions back

What it is to be read back differs by where an expression may stand: before a suffix, after a
leading operator or between binary operators. A form that is read back in the first place is read
back in the others.
-/

namespace HaxeMacro

open Parser Token Grammar

def ExprKind.bare (kind : ExprKind) : Expr := ⟨kind.relocate fun _ => .null, .null⟩

theorem Expr.relocate_null (e : Expr) : e.relocate (fun _ => .null) = e.kind.bare := by
  cases e
  rfl

theorem Expr.print_eq (e : Expr) : e.print = e.kind.print := by
  cases e
  rfl

namespace Grammar

/-! ## Texts without positions -/

/-- What may follow directly, put after an expression. -/
def suffixStep (e : Expr) : Parser (Option Expr) := do
  match ← optional (suffix (exprAt .nowhere 0) e) with
  | none => return none
  | some kind => return some ⟨kind, .null⟩

/-- What follows `cast` and a parenthesis if a type belongs to it. -/
def castPair : Parser ExprKind := do
  symbol "("
  let e ← exprAt .nowhere 0
  symbol ","
  blanks
  let t ← complexType .nowhere
  symbol ")"
  return .cast e (some t)

theorem refuses_castPair {t : List Char} (ht : ∀ c ∈ (skipBlanks t).head?, c ≠ '(') :
    Refuses castPair t := (refuses_symbol_head (c := '(') (w := []) rfl ht).bind

theorem postfixed_apply {s t rest : List Char} {e : Expr} (ht : skipBlanks t = s)
    (h : primary .nowhere (exprAt .nowhere 0) (tightExpr .nowhere) s = .done e rest) :
    postfixed .nowhere (exprAt .nowhere 0) (tightExpr .nowhere) t = grow suffixStep e rest := by
  have hblanks : blanks t = .done () s := by rw [blanks, ht]
  rw [postfixed, bind_of_done hblanks, bind_of_done (here_apply _), bind_of_done h]
  simp only [Source.span_nowhere]
  rfl

theorem suffixStep_of_done {e : Expr} {kind : ExprKind} {s rest : List Char}
    (h : suffix (exprAt .nowhere 0) e s = .done kind rest) :
    suffixStep e s = .done (some ⟨kind, .null⟩) rest := by
  rw [suffixStep, bind_of_done (optional_of_done h)]
  rfl

theorem NoSuffix.suffixStep_eq {s : List Char} (h : NoSuffix .nowhere s) (e : Expr) :
    suffixStep e s = .done none s := by
  rw [suffixStep, bind_of_done (h e).optional_eq]
  rfl

theorem eats_of_suffixStep {e e' : Expr} {s rest : List Char}
    (h : suffixStep e s = .done (some e') rest) : rest.length < s.length := by
  obtain ⟨kind?, middle, hkind, h⟩ := bind_eq_done h
  rcases optional_eq_done hkind with ⟨kind, rfl, hdone⟩ | ⟨rfl, -⟩
  · cases h
    exact (eats_suffix .nowhere e).length hdone
  · cases h

end Grammar

namespace ExprKind

/-! ## Three places -/

structure StartsBack (kind : ExprKind) : Prop where
  starts : ∀ s, Breaks s → Refuses (symbol ":") s → Starts (kind.print ++ s)
  notPair : kind.IsOperand → ∀ s t, skipBlanks t = kind.print ++ s → Refuses castPair t

/-- Read back before a suffix. -/
structure BaseBack (kind : ExprKind) : Prop extends StartsBack kind where
  unled : ∀ s, Refuses leadingOp (kind.print ++ s)
  base : ∀ s, kind.Fits s → (kind.lastPart ≠ none → NoSuffix .nowhere s) →
    ∀ t, skipBlanks t = kind.print ++ s →
    postfixed .nowhere (exprAt .nowhere 0) (tightExpr .nowhere) t = grow suffixStep kind.bare s

/-- Read back after a leading operator. -/
structure TightBack (kind : ExprKind) : Prop extends StartsBack kind where
  tight : ∀ s, kind.Fits s → NoSuffix .nowhere s →
    Reads (tightExpr .nowhere) kind.print kind.bare s

/-- Read back between binary operators, and in the other places if the form may stand there. -/
structure ReadsBack (kind : ExprKind) : Prop extends StartsBack kind where
  base : kind.IsClosed → kind.BaseBack
  tight : kind.IsOperand → kind.TightBack
  grown : ∀ least s, IsAtLeast least kind → MayPrecede kind s → kind.Fits s → NoSuffix .nowhere s →
    ∀ t, skipBlanks t = kind.print ++ s →
    exprAt .nowhere least t = grow (binaryStep (exprAt .nowhere) least) kind.bare s

variable {kind : ExprKind}

namespace StartsBack

theorem head (h : kind.StartsBack) : ∃ c r, kind.print = c :: r ∧ startsExpr c = true := by
  have hstarts := h.starts [] breaks_nil ⟨[], rfl⟩
  rw [List.append_nil] at hstarts
  exact hstarts.head

theorem not_allBlank (h : kind.StartsBack) : Text.allBlank kind.print = false := by
  obtain ⟨c, r, hprint, hc⟩ := h.head
  rw [hprint, Text.allBlank_cons, isBlank_of_startsExpr hc]
  rfl

theorem startsToken (h : kind.StartsBack) : StartsToken kind.print := by
  obtain ⟨c, r, hprint, hc⟩ := h.head
  refine ⟨c, ?_, startsBlank_eq_false (by decide) hc⟩
  rw [hprint]
  rfl

theorem skipBlanks_append (h : kind.StartsBack) (s : List Char) :
    skipBlanks (kind.print ++ s) = kind.print ++ s := h.startsToken.skipBlanks_append s

theorem refuses_symbol (h : kind.StartsBack) {word : String} {c : Char} {w : List Char}
    (hword : word.toList = c :: w) (hc : startsExpr c = false) {s t : List Char}
    (ht : skipBlanks t = kind.print ++ s) : Refuses (symbol word) t := by
  obtain ⟨d, r, hprint, hd⟩ := h.head
  rw [hprint] at ht
  refine Parser.refuses_symbol hword ht ?_
  rintro rfl
  rw [hd] at hc
  cases hc

theorem noArrow (h : kind.StartsBack) (s : List Char) :
    Refuses (text "->") (kind.print ++ s) := by
  obtain ⟨c, r, hprint, -⟩ := h.head
  have hstarts := h.starts ['>'] (breaks_mark _ (by decide)) ⟨_, rfl⟩
  rw [hprint, List.cons_append] at hstarts ⊢
  by_cases hminus : c = '-'
  · subst hminus
    cases r with
    | nil => exact absurd (text_append "->" []) hstarts.noArrow.not_done
    | cons d r =>
      refine refuses_text_second (c := '-') (d := '>') (w := []) rfl ?_
      rintro e he rfl
      cases he
      exact absurd (text_append "->" (r ++ ['>'])) hstarts.noArrow.not_done
  · refine refuses_text (c := '-') (w := ['>']) rfl ?_
    rintro d hd
    cases hd
    exact hminus

theorem typeEnds (h : kind.StartsBack) (s : List Char) : TypeEnds (' ' :: (kind.print ++ s)) := by
  refine typeEnds_space (h.skipBlanks_append s) ?_ (h.noArrow s)
  obtain ⟨c, r, hprint, hc⟩ := h.head
  rw [hprint]
  rintro d hd rfl
  cases hd
  exact absurd hc (by decide)

end StartsBack

theorem BaseBack.tightBack (h : kind.BaseBack) : kind.TightBack where
  toStartsBack := h.toStartsBack
  tight := fun s hs hsuffix t ht => by
    have hskip := h.skipBlanks_append s
    rw [tightExpr_apply ht (h.unled s), h.base s hs (fun _ => hsuffix) _ hskip]
    exact grow_of_none (hsuffix.suffixStep_eq _)

theorem TightBack.readsBack (h : kind.TightBack) (hbase : kind.IsClosed → kind.BaseBack) :
    kind.ReadsBack where
  toStartsBack := h.toStartsBack
  base := hbase
  tight := fun _ => h
  grown := fun least s _ _ hs hsuffix t ht => by
    rw [exprAt_eq, climb, bind_of_done (h.tight s hs hsuffix t ht)]

theorem BaseBack.readsBack (h : kind.BaseBack) : kind.ReadsBack := h.tightBack.readsBack fun _ => h

theorem mayPrecede_of_isAtLeast {least : Nat} {s : List Char} (h : IsAtLeast least kind)
    (hs : Blocked least s) : MayPrecede kind s := by
  cases kind with
  | binary op left right =>
    refine hs.mono (Nat.le_trans h ?_)
    unfold rightLevel
    split
    · exact Nat.le_refl _
    · exact Nat.le_succ _
  | ternary => exact hs.mono h
  | _ => trivial

theorem ReadsBack.reads_at (h : kind.ReadsBack) {least : Nat} {s : List Char}
    (hleast : IsAtLeast least kind) (hblocked : Blocked least s) (hs : kind.Fits s)
    (hsuffix : NoSuffix .nowhere s) : Reads (exprAt .nowhere least) kind.print kind.bare s := by
  intro t ht
  rw [h.grown least s hleast (mayPrecede_of_isAtLeast hleast hblocked) hs hsuffix t ht]
  obtain ⟨rest, hnone⟩ := hblocked.binaryStep_eq (exprAt .nowhere) kind.bare
  exact grow_of_none hnone

theorem ReadsBack.reads (h : kind.ReadsBack) {s : List Char} (hs : kind.Stops s) :
    Reads (exprAt .nowhere 0) kind.print kind.bare s := by
  have hleast : IsAtLeast 0 kind := by
    cases kind <;> first | trivial | exact Nat.zero_le _
  exact h.reads_at hleast hs.blocked hs.toFits hs.noSuffix

/-! ## Forms that start with a keyword or a mark -/

theorem BaseBack.of_forms (hstarts : kind.StartsBack)
    (hunled : ∀ s, Refuses leadingOp (kind.print ++ s))
    (h : ∀ s, kind.Fits s → (kind.lastPart ≠ none → NoSuffix .nowhere s) →
      oneOf (keywordExpr .nowhere (exprAt .nowhere 0) (tightExpr .nowhere) ::
        (markedForms .nowhere (exprAt .nowhere 0)).map (·.2) ++ [constant]) (kind.print ++ s) =
        .done (kind.relocate fun _ => .null) s) : kind.BaseBack where
  toStartsBack := hstarts
  unled := hunled
  base := fun s hs hsuffix t ht => by
    refine postfixed_apply ht ?_
    rw [primary_apply _ _ _ (hstarts.skipBlanks_append s), bind_of_done (h s hs hsuffix),
      bind_of_done (here_apply _), Source.span_nowhere]
    rfl

theorem startsBack_word {word : String} {text : List Char → List Char} (hname : IsName word)
    (helse : word ≠ "else") (htext : ∀ s, kind.print ++ s = chars word ++ text s)
    (hbreaks : ∀ s, Breaks s → Breaks (text s))
    (hcolon : ∀ s, Refuses (symbol ":") s → Refuses (symbol ":") (text s)) :
    kind.StartsBack ∧ ∀ s, Refuses leadingOp (kind.print ++ s) := by
  have hhead {p : Char → Prop} (hp : ∀ c, Text.startsName c = true → p c) (s : List Char) :
      ∀ c ∈ (kind.print ++ s).head?, p c := by
    obtain ⟨d, ds, heq, hd, -⟩ := hname
    intro c hc
    rw [htext, chars, heq] at hc
    cases hc
    exact hp _ hd
  refine ⟨⟨fun s hs hc => ?_, fun _ s t ht => ?_⟩, fun s => ?_⟩
  · rw [htext]
    exact .word hname helse (hbreaks s hs) (hcolon s hc)
  · refine refuses_castPair ?_
    rw [ht]
    refine hhead (fun c hc => ?_) s
    rintro rfl
    exact absurd hc (by decide)
  · refine refuses_leadingOp (hhead (fun c hc => ?_) s)
    rw [Bool.eq_false_iff]
    intro hcontains
    have hall : ∀ c ∈ "+-.!~".toList, Text.startsName c = false :=
      List.all_iff_forall_prop.mp (by decide)
    rw [hall c (List.contains_iff_mem.mp hcontains)] at hc
    cases hc

theorem BaseBack.of_keyword {word : String} {p : Parser ExprKind} {text : List Char → List Char}
    (i : Nat) (hp : (keywordForms .nowhere (exprAt .nowhere 0) (tightExpr .nowhere))[i]? = some p)
    (hword : word ∈ reserved.erase "else") (hbefore : ∀ words ∈ formWords.take i, word ∉ words)
    (htext : ∀ s, kind.print ++ s = chars word ++ text s)
    (hbreaks : ∀ s, Breaks s → Breaks (text s))
    (hcolon : ∀ s, Refuses (symbol ":") s → Refuses (symbol ":") (text s))
    (h : ∀ s, kind.Fits s → (kind.lastPart ≠ none → NoSuffix .nowhere s) →
      p (chars word ++ text s) = .done (kind.relocate fun _ => .null) s) : kind.BaseBack := by
  obtain ⟨hi, rfl⟩ := List.getElem?_eq_some_iff.mp hp
  have hname := isName_of_mem_reserved word (List.mem_of_mem_erase hword)
  have helse : word ≠ "else" := by
    rintro rfl
    exact absurd hword (by decide)
  obtain ⟨hstarts, hunled⟩ := startsBack_word hname helse htext hbreaks hcolon
  refine .of_forms hstarts hunled fun s hs hsuffix => ?_
  rw [htext]
  exact or_of_done (keywordExpr_of_done i hi hname (hbreaks s hs.breaks) hbefore (h s hs hsuffix))

theorem BaseBack.of_mark {c : Char} {p : Parser ExprKind} {text : List Char → List Char}
    (hp : (c, p) ∈ markedForms .nowhere (exprAt .nowhere 0))
    (htext : ∀ s, kind.print ++ s = c :: text s)
    (hpair : c = '(' → ∀ s t, skipBlanks t = c :: text s → Refuses castPair t)
    (h : ∀ s, kind.Fits s → (kind.lastPart ≠ none → NoSuffix .nowhere s) →
      p (c :: text s) = .done (kind.relocate fun _ => .null) s) : kind.BaseBack := by
  have hmarks : ∀ entry ∈ markedForms .nowhere (exprAt .nowhere 0),
      entry.1 ∈ ['@', '(', '[', '\x7b'] := by
    intro entry hentry
    exact List.mem_map_of_mem (f := (·.1)) hentry
  have hall : ∀ c ∈ ['@', '(', '[', '\x7b'],
      c ∈ marks ∧ c ≠ '-' ∧ "+-.!~".toList.contains c = false :=
    List.all_iff_forall_prop.mp (by decide)
  obtain ⟨hmark, hminus, hled⟩ := hall c (hmarks _ hp)
  refine .of_forms ⟨fun s _ _ => ?_, fun _ s t ht => ?_⟩ (fun s => ?_) fun s hs hsuffix => ?_
  · rw [htext]
    exact .mark hmark fun heq => absurd heq hminus
  · rw [htext] at ht
    by_cases hparen : c = '('
    · exact hpair hparen s t ht
    · refine refuses_castPair ?_
      rw [ht]
      rintro d hd
      cases hd
      exact hparen
  · refine refuses_leadingOp ?_
    rw [htext]
    rintro d hd
    cases hd
    exact hled
  · rw [htext]
    exact forms_of_mark hp (h s hs hsuffix)

/-! ## Constants -/

theorem BaseBack.of_constant {c : Constant} {d : Char} {r : List Char} (hprint : c.print = d :: r)
    (hd : d ∈ "0123456789\"~".toList)
    (hstarts : ∀ s, Refuses (symbol ":") s → Starts (c.print ++ s))
    (hunled : ∀ s, Refuses leadingOp (c.print ++ s))
    (hread : ∀ s, Breaks s → constant (c.print ++ s) = .done (.const c) s) :
    (ExprKind.const c).BaseBack := by
  have hall : ∀ d ∈ "0123456789\"~".toList, startsBlank d = false ∧ Text.startsName d = false ∧
      d ∉ ['@', '(', '[', '\x7b'] := List.all_iff_forall_prop.mp (by decide)
  obtain ⟨hblank, hname, hmark⟩ := hall d hd
  have hhead {p : Char → Prop} (hp : p d) (s : List Char) :
      ∀ e ∈ (skipBlanks (c.print ++ s)).head?, p e := by
    rw [hprint, List.cons_append, skipBlanks_cons _ hblank]
    rintro e he
    cases he
    exact hp
  refine .of_forms ⟨fun s _ hs => hstarts s hs, fun _ s t ht => ?_⟩ hunled fun s hs _ => ?_
  · refine refuses_castPair ?_
    have ht' : skipBlanks t = c.print ++ s := ht
    rw [ht', hprint]
    rintro e he
    cases he
    rintro rfl
    exact hmark (by decide)
  · have hmarks : ∀ p ∈ keywordExpr .nowhere (exprAt .nowhere 0) (tightExpr .nowhere) ::
        (markedForms .nowhere (exprAt .nowhere 0)).map (·.2), Refuses p (c.print ++ s) := by
      intro p hp
      rcases List.mem_cons.mp hp with rfl | hp
      · exact refuses_keywordExpr_mark (hhead hname s)
      · obtain ⟨entry, hentry, rfl⟩ := List.mem_map.mp hp
        refine refuses_markedForm hentry (hhead ?_ s)
        rintro rfl
        exact hmark (List.mem_map_of_mem (f := (·.1)) hentry)
    exact oneOf_of_done hmarks (hread s hs.breaks)

theorem baseBack_number {c : Constant} {t rest : List Char} (h : number t = .done c rest) :
    (ExprKind.const c).BaseBack := by
  obtain ⟨d, ds, hprint, hdigit⟩ := number_eq_done h
  have hd := Text.isDigit_mem hdigit
  have hall : ∀ d ∈ "0123456789".toList, d ∈ "0123456789\"~".toList ∧ d ∈ marks ∧ d ≠ '-' ∧
      "+-.!~".toList.contains d = false := List.all_iff_forall_prop.mp (by decide)
  obtain ⟨hfirst, hmark, hminus, hled⟩ := hall d hd
  refine .of_constant hprint hfirst (fun s _ => ?_) (fun s => ?_) fun s hs => ?_
  · rw [hprint]
    exact .mark hmark fun heq => absurd heq hminus
  · refine refuses_leadingOp ?_
    rw [hprint]
    rintro e he
    cases he
    exact hled
  · exact or_of_done (bind_of_done (number_append h hs))

theorem baseBack_string (text : String) : (ExprKind.const (.string text .double)).BaseBack := by
  refine .of_constant (d := '"') rfl (by decide) (fun s hs => .quoted text hs) (fun s => ?_)
    fun s _ => ?_
  · refine refuses_leadingOp ?_
    rintro e he
    cases he
    decide
  · have hread := stringLiteral_append text s
    rw [Constant.print, quoteDouble, List.cons_append, List.cons_append] at *
    exact constant_quote (Or.inl rfl) hread

theorem baseBack_regexp {c : Constant} {t rest : List Char} (h : regexpLiteral t = .done c rest) :
    (ExprKind.const c).BaseBack := by
  obtain ⟨pattern, flags, rfl⟩ := regexp_of_literal h
  refine .of_constant (d := '~') rfl (by decide)
    (fun s _ => .mark (by decide) fun h => absurd h (by decide))
    (fun s => ⟨_, rfl⟩) fun s hs => ?_
  have hread := regexpLiteral_append h hs
  have hnumber : Refuses number ((Constant.regexp pattern flags).print ++ s) :=
    refuses_number fun d hd => by cases hd; rfl
  have hstring : Refuses stringLiteral ((Constant.regexp pattern flags).print ++ s) :=
    refuses_stringLiteral fun d hd => by cases hd; decide
  rw [constant, oneOf, hnumber.bind.or_eq, oneOf, hstring.bind.or_eq, oneOf]
  exact or_of_done (bind_of_done hread)

theorem baseBack_ident {name : String} (h : IsIdentifier name) :
    (ExprKind.const (.ident name)).BaseBack := by
  have hfree : name ∉ reserved := fun hmem => by
    exact absurd (List.contains_iff_mem.mpr hmem) (by rw [h.free]; decide)
  have helse : name ≠ "else" := by
    rintro rfl
    exact hfree (by decide)
  have htext (s : List Char) : (ExprKind.const (.ident name)).print ++ s = chars name ++ s := rfl
  obtain ⟨hstarts, hunled⟩ := startsBack_word h.isName helse htext (fun _ h => h) fun _ h => h
  refine .of_forms hstarts hunled fun s hs _ => ?_
  rw [htext]
  have hhead {p : Char → Prop} (hp : ∀ c, Text.startsName c = true → p c) :
      ∀ c ∈ (chars name ++ s).head?, p c := by
    obtain ⟨d, ds, heq, hd, -⟩ := h.isName
    intro c hc
    rw [chars, heq] at hc
    cases hc
    exact hp _ hd
  have hskip := h.isName.skipBlanks_append s
  refine oneOf_of_done (fun p hp => ?_) ?_
  · rcases List.mem_cons.mp hp with rfl | hp
    · refine refuses_keywordExpr_word h.isName hs.breaks fun words hwords hmem => ?_
      exact hfree (formWords_reserved words hwords name hmem)
    · obtain ⟨entry, hentry, rfl⟩ := List.mem_map.mp hp
      refine refuses_markedForm hentry ?_
      rw [hskip]
      refine hhead fun c hc => ?_
      rintro rfl
      have hall : ∀ c ∈ ['@', '(', '[', '\x7b'], Text.startsName c = false :=
        List.all_iff_forall_prop.mp (by decide)
      rw [hall _ (List.mem_map_of_mem (f := (·.1)) hentry)] at hc
      cases hc
  · have hnumber := refuses_number (hhead fun c => Text.not_isDigit_of_startsName)
    have hstring : Refuses stringLiteral (chars name ++ s) := by
      refine refuses_stringLiteral (hhead fun c hc => ⟨?_, ?_⟩) <;>
      · rintro rfl
        exact absurd hc (by decide)
    have hregexp : Refuses regexpLiteral (chars name ++ s) := by
      refine refuses_regexpLiteral (hhead fun c hc => ?_)
      rintro rfl
      exact absurd hc (by decide)
    have hread := identifier_append h.isName h.free hs.breaks
    exact hnumber.bind.or_eq.trans (hstring.bind.or_eq.trans (hregexp.bind.or_eq.trans
      (bind_of_done hread)))

/-! ## Suffixes -/

theorem BaseBack.of_suffix {e : Expr} {c : Char} {text : List Char → List Char}
    (he : e.kind.BaseBack) (hclosed : e.kind.IsClosed)
    (hfits : ∀ s, Breaks s → e.kind.Fits s)
    (htext : ∀ s, kind.print ++ s = e.kind.print ++ c :: text s) (hc : c ∈ ".([+-".toList)
    (hbreaks : ∀ s, Breaks s → Breaks (c :: text s))
    (h : ∀ s, kind.Fits s → suffix (exprAt .nowhere 0) e.kind.bare (c :: text s) =
      .done (kind.relocate fun _ => .null) s) : kind.BaseBack := by
  have hall : ∀ c ∈ ".([+-".toList, startsBlank c = false ∧ c ≠ ':' :=
    List.all_iff_forall_prop.mp (by decide)
  obtain ⟨hblank, hcolon⟩ := hall c hc
  refine ⟨⟨fun s hs _ => ?_, fun _ s t ht => ?_⟩, fun s => ?_, fun s hs _ t ht => ?_⟩
  · rw [htext]
    refine he.starts _ (hbreaks s hs) ?_
    exact Parser.refuses_symbol (c := ':') (w := []) rfl (skipBlanks_cons _ hblank) hcolon
  · rw [htext] at ht
    exact he.notPair hclosed.isOperand _ t ht
  · rw [htext]
    exact he.unled _
  · rw [htext] at ht
    rw [he.base _ (hfits _ (hbreaks s hs.breaks)) (absurd hclosed.noLast) t ht]
    exact grow_of_some (fun _ _ _ _ h => eats_of_suffixStep h) (suffixStep_of_done (h s hs))

/-! ## Leading operators -/

/-- A leading operator is read if what follows it makes no other token of it. -/
theorem leadingOp_symbol {op : UnaryOp} {s : List Char}
    (hminus : op = .neg → ∀ c ∈ s.head?, c ≠ '-') (hslash : ∀ c ∈ s.head?, c ≠ '/') :
    leadingOp (chars op.symbol ++ s) = .done op s := by
  cases op with
  | neg =>
    have hbefore : ∀ p ∈ [(do text "++"; return UnaryOp.increment),
        (do text "--"; return .decrement), (do text "..."; return .spread),
        (do text "!"; return .not)], Refuses p ('-' :: s) := by
      simp only [List.forall_mem_cons, List.not_mem_nil, false_implies, implies_true, and_true]
      have hminus : Refuses (text "--") ('-' :: s) :=
        refuses_text_second (c := '-') (d := '-') (w := []) rfl (hminus rfl)
      exact ⟨⟨_, rfl⟩, hminus.bind, ⟨_, rfl⟩, ⟨_, rfl⟩⟩
    exact oneOf_of_done hbefore rfl
  | negBits =>
    have hlacks : lacks (text "/") s = .done () s :=
      (refuses_text (c := '/') (w := []) rfl hslash).lacks_eq
    change (do lacks (text "/"); return UnaryOp.negBits : Parser UnaryOp) s = _
    rw [bind_of_done hlacks]
    rfl
  | _ => rfl

/-- An operand after an operator, which is put before what the operand is read as. -/
theorem tightExpr_led {op : UnaryOp} {e : Expr} {s r rest : List Char} {t : List Char}
    (ht : skipBlanks t = s) (hop : leadingOp s = .done op r)
    (he : tightExpr .nowhere r = .done e rest) :
    tightExpr .nowhere t = .done ⟨applyLeading op e, .null⟩ rest := by
  have hblanks : blanks t = .done () s := by rw [blanks, ht]
  have hleading : leading .nowhere (exprAt .nowhere 0) (tightExpr .nowhere) t =
      .done ⟨applyLeading op e, .null⟩ rest := by
    rw [leading, bind_of_done hblanks, bind_of_done (here_apply _),
      bind_of_done (optional_of_done hop)]
    simp only
    rw [bind_of_done he, bind_of_done (here_apply _), Source.span_nowhere]
    rfl
  exact (congrFun (tightExpr_eq .nowhere) t).trans hleading

theorem TightBack.leading {op : UnaryOp} {e : Expr} (he : e.kind.TightBack)
    (happly : applyLeading op e = .unary op false e)
    (hsign : op = .neg → ∀ c ∈ e.kind.print.head?, c ≠ '-') :
    (ExprKind.unary op false e).TightBack := by
  obtain ⟨c, r, hprint, hc⟩ := he.head
  have htext (s : List Char) : (ExprKind.unary op false e).print ++ s =
      chars op.symbol ++ (e.kind.print ++ s) := by
    rw [ExprKind.print, Expr.print_eq, List.append_assoc]
  have hhead {p : Char → Prop} (hp : p c) (s : List Char) :
      ∀ d ∈ (e.kind.print ++ s).head?, p d := by
    rw [hprint]
    rintro d hd
    cases hd
    exact hp
  have hne : ∀ d, startsExpr d = false → c ≠ d := by
    rintro d hd rfl
    rw [hc] at hd
    cases hd
  have hop (s : List Char) : leadingOp (chars op.symbol ++ (e.kind.print ++ s)) =
      .done op (e.kind.print ++ s) := by
    refine leadingOp_symbol (fun hneg => hhead ?_ s) (hhead (hne '/' (by decide)) s)
    refine hsign hneg c ?_
    rw [hprint]
    rfl
  refine ⟨⟨fun s _ _ => ?_, fun _ s t ht => ?_⟩, fun s hs hsuffix t ht => ?_⟩
  · rw [htext]
    cases op with
    | neg => exact .mark (by decide) fun _ => hhead (hne '>' (by decide)) s
    | decrement =>
      refine .mark (by decide) fun _ d hd => ?_
      cases hd
      decide
    | _ => exact .mark (by decide) nofun
  · rw [htext] at ht
    refine refuses_castPair ?_
    rw [ht]
    cases op <;>
    · rintro d hd
      cases hd
      decide
  · rw [htext] at ht
    have hread := he.tight s (hs.last rfl) hsuffix _ (he.skipBlanks_append s)
    have happly' : applyLeading op e.kind.bare = .unary op false e.kind.bare := by
      rw [← Expr.relocate_null, ← relocate_applyLeading, happly]
      rfl
    rw [tightExpr_led ht (hop s) hread, happly', ← Expr.relocate_null]
    rfl

theorem TightBack.signed {c : Constant} {text : String} {t rest : List Char}
    (hc : number t = .done c rest) (hprint : c.print = text.toList) {c' : Constant}
    (happly : ∀ pos, applyLeading .neg ⟨.const c, pos⟩ = .const c')
    (hprint' : c'.print = '-' :: text.toList) : (ExprKind.const c').TightBack := by
  have hbase := baseBack_number hc
  obtain ⟨d, ds, hdigits, hdigit⟩ := number_eq_done hc
  have hd := Text.isDigit_mem hdigit
  have hall : ∀ d ∈ "0123456789".toList, d ≠ '-' ∧ d ≠ '/' ∧ d ≠ '>' :=
    List.all_iff_forall_prop.mp (by decide)
  obtain ⟨hminus, hslash, hbracket⟩ := hall d hd
  have htext (s : List Char) : (ExprKind.const c').print ++ s =
      '-' :: ((ExprKind.const c).print ++ s) := by
    rw [ExprKind.print, hprint', ExprKind.print, hprint, List.cons_append]
  have hhead {p : Char → Prop} (hp : p d) (s : List Char) :
      ∀ e ∈ ((ExprKind.const c).print ++ s).head?, p e := by
    rw [ExprKind.print, hdigits]
    rintro e he
    cases he
    exact hp
  refine ⟨⟨fun s _ _ => ?_, fun _ s t ht => ?_⟩, fun s hs hsuffix t ht => ?_⟩
  · rw [htext]
    exact .mark (by decide) fun _ => hhead hbracket s
  · rw [htext] at ht
    refine refuses_castPair ?_
    rw [ht]
    rintro e he
    cases he
    decide
  · rw [htext] at ht
    have hop : leadingOp (chars UnaryOp.neg.symbol ++ ((ExprKind.const c).print ++ s)) =
        .done .neg ((ExprKind.const c).print ++ s) :=
      leadingOp_symbol (fun _ => hhead hminus s) (hhead hslash s)
    have hfits : (ExprKind.const c).Fits s := ⟨hs.breaks, .closed rfl rfl rfl, nofun, nofun⟩
    have hread := hbase.tightBack.tight s hfits hsuffix _ (hbase.skipBlanks_append s)
    rw [tightExpr_led ht hop hread, bare, relocate, happly]
    rfl

/-! ## Binary operators -/

def infixText (op : BinaryOp) (s : List Char) : List Char := ' ' :: (chars op.symbol ++ ' ' :: s)

/-- The text of the operator is read as the operator, and as nothing else. -/
structure IsInfix (op : BinaryOp) (s : List Char) : Prop where
  operator : binaryOp (infixText op s) = .done op (' ' :: s)
  noMark : Refuses ternaryMark (infixText op s)
  noColon : Refuses (symbol ":") (infixText op s)
  noSuffix : NoSuffix .nowhere (infixText op s)

theorem isInfix_of_mem {word : String} {op : BinaryOp} (h : (word, op) ∈ binarySymbols)
    (s : List Char) : IsInfix op s := by
  simp only [binarySymbols, List.mem_cons, List.not_mem_nil, Prod.mk.injEq] at h
  repeat' rcases h with ⟨-, rfl⟩ | h
  all_goals exact ⟨rfl, ⟨_, rfl⟩, ⟨_, rfl⟩, fun _ => ⟨_, rfl⟩⟩

theorem breaks_space (s : List Char) : Breaks (' ' :: s) :=
  breaks_mark s (by decide)

theorem isAtLeast_of_isRightOf {op : BinaryOp} (h : kind.IsRightOf op) :
    IsAtLeast (rightLevel op) kind := by
  cases kind with
  | binary inner left right =>
    change rightLevel op ≤ inner.level
    unfold rightLevel
    rcases h with hlt | ⟨heq, hright⟩
    · split <;> omega
    · rw [(groupsRight_eq_of_level_eq heq).trans hright, if_pos rfl]
      exact Nat.le_of_eq heq
  | ternary =>
    change rightLevel op ≤ ternaryLevel
    rw [rightLevel_of_assignment h]
    decide
  | _ => trivial

theorem isAtLeast_of_isAlternative (h : kind.IsAlternative) : IsAtLeast ternaryLevel kind := by
  cases kind with
  | binary op left right =>
    have hle := assignmentLevel_le op
    exact Nat.lt_of_le_of_ne hle (Ne.symm h)
  | ternary => exact Nat.le_refl _
  | _ => trivial

theorem isAtLeast_of_isLeftOf {op : BinaryOp} {least : Nat} (h : kind.IsLeftOf op)
    (hle : least ≤ op.level) : IsAtLeast least kind := by
  cases kind with
  | binary inner left right =>
    rcases h with hlt | ⟨heq, -⟩
    · exact Nat.le_trans hle (Nat.le_of_lt hlt)
    · exact Nat.le_trans hle (Nat.le_of_eq heq)
  | ternary =>
    rw [h] at hle
    exact Nat.le_trans hle (by decide)
  | _ => trivial

theorem IsLeftOf.mayPrecede {op : BinaryOp} {s : List Char} (h : kind.IsLeftOf op)
    (hop : IsInfix op s) : MayPrecede kind (infixText op s) := by
  have hblocked (least : Nat) (hlt : op.level < least) : Blocked least (infixText op s) := by
    refine ⟨fun op' rest hop' => ?_, fun _ => hop.noMark⟩
    rw [hop.operator] at hop'
    cases hop'
    exact hlt
  cases kind with
  | binary inner left right =>
    refine hblocked _ ?_
    unfold rightLevel
    rcases h with hlt | ⟨heq, hright⟩
    · split <;> omega
    · rw [hright, if_neg (by decide)]
      omega
  | ternary =>
    refine hblocked _ ?_
    rw [h]
    decide
  | _ => trivial

theorem readsBack_binary {op : BinaryOp} {word : String} {left right : Expr}
    (hop : (word, op) ∈ binarySymbols) (hleft : left.kind.ReadsBack) (hright : right.kind.ReadsBack)
    (hl : left.kind.IsLeftOf op) (hr : right.kind.IsRightOf op)
    (hfits : ∀ s, left.kind.Fits (' ' :: s)) : (ExprKind.binary op left right).ReadsBack := by
  have htext (s : List Char) : (ExprKind.binary op left right).print ++ s =
      left.kind.print ++ infixText op (right.kind.print ++ s) := by
    rw [ExprKind.print, Expr.print_eq, Expr.print_eq, infixText]
    simp
  refine ⟨⟨fun s _ _ => ?_, nofun⟩, fun h => ?_, nofun, ?_⟩
  · rw [htext]
    exact hleft.starts _ (breaks_space _) (isInfix_of_mem hop _).noColon
  · cases h.noLast
  · intro least s hleast hprecede hs hsuffix t ht
    rw [htext] at ht
    have hinfix := isInfix_of_mem hop (right.kind.print ++ s)
    rw [hleft.grown least _ (isAtLeast_of_isLeftOf hl hleast) (hl.mayPrecede hinfix) (hfits _)
      hinfix.noSuffix t ht]
    refine grow_of_some (fun _ _ _ _ h => (eats_of_binaryStep h).2) ?_
    have hread := (hright.reads_at (isAtLeast_of_isRightOf hr) hprecede (hs.last rfl) hsuffix).space
      hright.startsToken
    have hbare : (ExprKind.binary op left right).bare =
        ⟨.binary op left.kind.bare right.kind.bare, .null⟩ := by
      rw [← Expr.relocate_null, ← Expr.relocate_null]
      rfl
    have htail : operatorTail (exprAt .nowhere) least left.kind.bare
        (infixText op (right.kind.print ++ s)) =
        .done (some (ExprKind.binary op left right).bare) s := by
      rw [operatorTail, bind_of_done (optional_of_done hinfix.operator)]
      simp only [if_neg (Nat.not_lt.mpr hleast)]
      rw [bind_of_done hread, hbare]
      rfl
    unfold binaryStep
    split
    · rw [bind_of_done hinfix.noMark.present_eq]
      exact htail
    · exact htail

theorem IsTest.mayPrecede (h : kind.IsTest) (s : List Char) :
    MayPrecede kind (' ' :: '?' :: ' ' :: s) := by
  have hop : Refuses binaryOp (' ' :: '?' :: ' ' :: s) := ⟨_, rfl⟩
  cases kind with
  | binary op left right =>
    refine ⟨fun _ _ hop' => absurd hop' hop.not_done, fun hle => ?_⟩
    exact absurd (level_of_rightLevel_le hle) h
  | ternary => exact h.elim
  | _ => trivial

theorem isAtLeast_of_isTest {least : Nat} (h : kind.IsTest) (hle : least ≤ ternaryLevel) :
    IsAtLeast least kind := by
  cases kind with
  | binary op left right =>
    have hlevel := assignmentLevel_le op
    exact Nat.le_trans hle (Nat.lt_of_le_of_ne hlevel (Ne.symm h))
  | ternary => exact h.elim
  | _ => trivial

theorem readsBack_ternary {test yes no : Expr} (htest : test.kind.ReadsBack)
    (hyes : yes.kind.ReadsBack) (hno : no.kind.ReadsBack) (ht : test.kind.IsTest)
    (ha : no.kind.IsAlternative) (hfits : ∀ s, test.kind.Fits (' ' :: s))
    (hstops : ∀ s, yes.kind.Stops (' ' :: ':' :: ' ' :: s)) :
    (ExprKind.ternary test yes no).ReadsBack := by
  have htext (s : List Char) : (ExprKind.ternary test yes no).print ++ s = test.kind.print ++
      ' ' :: '?' :: ' ' :: (yes.kind.print ++ ' ' :: ':' :: ' ' :: (no.kind.print ++ s)) := by
    have hmark : chars " ? " = [' ', '?', ' '] := rfl
    have hcolon : chars " : " = [' ', ':', ' '] := rfl
    simp [ExprKind.print, Expr.print_eq, hmark, hcolon]
  refine ⟨⟨fun s _ _ => ?_, nofun⟩, fun h => ?_, nofun, ?_⟩
  · rw [htext]
    exact htest.starts _ (breaks_space _) ⟨_, rfl⟩
  · cases h.noLast
  · intro least s hleast hprecede hs hsuffix t ht'
    rw [htext] at ht'
    rw [htest.grown least _ (isAtLeast_of_isTest ht hleast) (ht.mayPrecede _) (hfits _)
      (fun _ => ⟨_, rfl⟩) t ht']
    refine grow_of_some (fun _ _ _ _ h => (eats_of_binaryStep h).2) ?_
    have hmark (r : List Char) : ternaryMark (' ' :: '?' :: ' ' :: r) = .done () (' ' :: r) := rfl
    have hcolon (r : List Char) : symbol ":" (' ' :: ':' :: ' ' :: r) = .done () (' ' :: r) := rfl
    have hyes' := (hyes.reads (hstops (no.kind.print ++ s))).space hyes.startsToken
    have hno' := (hno.reads_at (isAtLeast_of_isAlternative ha) hprecede (hs.last rfl) hsuffix).space
      hno.startsToken
    have hbare : (ExprKind.ternary test yes no).bare =
        ⟨.ternary test.kind.bare yes.kind.bare no.kind.bare, .null⟩ := by
      rw [← Expr.relocate_null, ← Expr.relocate_null, ← Expr.relocate_null]
      rfl
    have htail : ternaryTail (exprAt .nowhere) test.kind.bare
        (' ' :: (yes.kind.print ++ ' ' :: ':' :: ' ' :: (no.kind.print ++ s))) =
        .done (ExprKind.ternary test yes no).bare s := by
      rw [ternaryTail, bind_of_done hyes', bind_of_done (hcolon _), bind_of_done hno', hbare]
      rfl
    have hle : least ≤ ternaryLevel := hleast
    rw [binaryStep, if_pos hle, bind_of_done (present_of_done (hmark _))]
    simp only [if_true]
    exact bind_of_done htail

end ExprKind

end HaxeMacro
