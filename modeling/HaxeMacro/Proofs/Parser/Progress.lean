import HaxeMacro.Proofs.Parser.Spans

/-! # Reading comes to an end

No production comes back to where it started: whatever it reads through itself stands in a shorter
text, or is left to a production below it. So a number of steps that grows with the text is enough,
and no repetition goes round without reading.
-/

namespace HaxeMacro

open Parser Token Grammar

/-! ## Parsers that agree on short texts -/

namespace Parser

variable {α : Type} {k n : Nat} {p q : Parser α}

def Agree (n : Nat) (p q : Parser α) : Prop := ∀ s, s.length < n → q s = p s

theorem Eats.keeps_of_agree {f : α → α} (hf : ∀ a, f a = a) (heats : Eats k p)
    (h : Agree n p q) : Keeps f k n p q := by
  obtain rfl : f = id := funext hf
  intro s hs
  exact ⟨(h s hs).trans (Reply.map_id _).symm, heats s⟩

theorem Keeps.agree {f : α → α} (hf : ∀ a, f a = a) (h : Keeps f k n p q) : Agree n p q := by
  obtain rfl : f = id := funext hf
  intro s hs
  exact (h s hs).1.trans (Reply.map_id _)

theorem Agree.eq {s : List Char} (h : Agree (s.length + 1) p q) : q s = p s :=
  h s (Nat.lt_succ_self _)

end Parser

namespace Grammar

/-! ## What the productions read -/

section
variable (src : Source)

theorem eats_exprAt (least : Nat) : Eats 1 (exprAt src least) :=
  Keeps.eats_left fun _ => keeps_exprAt (moves_id src) least

theorem eats_tightExpr : Eats 1 (tightExpr src) :=
  Keeps.eats_left fun _ => keeps_tightExpr (moves_id src)

theorem eats_metadataEntry : Eats 1 (metadataEntry src) :=
  Keeps.eats_left fun _ => keeps_metadataEntry (moves_id src)

/-- A production that keeps step on texts of at most `n` characters, for each `n`. -/
theorem eats_of_keeps_succ {α β : Type} {f : α → β} {k : Nat} {p : Parser α} {q : Parser β}
    (h : ∀ n, Keeps f k (n + 1) p q) : Eats k p :=
  Keeps.eats_left fun n => (h n).mono (Nat.le_refl k) (Nat.le_succ n)

/-- Every production answers on every text. Where it succeeds, it leaves an end of the text that is
shorter; and it refuses at an end of the text. Blanks and literals are read by recursion on the text
itself, and answer as well. -/
structure Answering : Prop where
  eats_blanks : Eats 0 blanks
  eats_string : Eats 1 stringLiteral
  eats_regexp : Eats 1 regexpLiteral
  eats_expression : Eats 1 (expression src)
  eats_exprAt : ∀ least, Eats 1 (exprAt src least)
  eats_tight : Eats 1 (tightExpr src)
  eats_postfixed : Eats 1 (postfixed src (expression src) (tightExpr src))
  eats_primary : Eats 1 (primary src (expression src) (tightExpr src))
  eats_metadata : Eats 1 (metadataEntry src)
  eats_type : Eats 1 (complexType src)
  eats_typeAtom : Eats 1 (atom src)
  eats_typePath : Eats 1 (typePath (complexType src))

theorem answering : Answering src where
  eats_blanks := Token.eats_blanks
  eats_string := eats_stringLiteral
  eats_regexp := eats_regexpLiteral
  eats_expression := eats_exprAt src 0
  eats_exprAt := eats_exprAt src
  eats_tight := eats_tightExpr src
  eats_postfixed := eats_of_keeps_succ fun _ =>
    keeps_postfixed (moves_id src) (keeps_exprAt (moves_id src) 0) (keeps_tightExpr (moves_id src))
  eats_primary := eats_of_keeps_succ fun _ =>
    keeps_primary (moves_id src) (keeps_exprAt (moves_id src) 0) (keeps_tightExpr (moves_id src))
  eats_metadata := eats_metadataEntry src
  eats_type := eats_complexType src
  eats_typeAtom := eats_atom src
  eats_typePath := eats_path src

/-! ## Where the productions go on -/

/-- More steps than these give the same answers. -/
structure Bounded : Prop where
  typeAtom : ∀ steps s, s.length + 1 ≤ steps → typeAtom src steps s = atom src s
  operand : ∀ steps s, 2 * s.length + 1 ≤ steps → operand src steps s = tightExpr src s
  binary : ∀ steps s, 2 * s.length + 2 ≤ steps → ∀ least,
    binary src steps least s = exprAt src least s

theorem bounded : Bounded src where
  typeAtom steps s h := by
    have hkeeps := keeps_typeAtom_atom src h
    exact (hkeeps.agree (fun _ => rfl)).eq.symm
  operand steps s h := by
    have hkeeps : Keeps id 1 (s.length + 1) (operand src steps) (tightExpr src) :=
      keeps_operand_tightExpr src (by omega)
    exact (hkeeps.agree (fun _ => rfl)).eq.symm
  binary steps s h least := by
    have hkeeps : Keeps id 1 (s.length + 1) (binary src steps least) (exprAt src least) :=
      keeps_binary_exprAt src (by omega) least
    exact (hkeeps.agree (fun _ => rfl)).eq.symm

/-- What a production gives on `s` does not depend on what it is given for itself, or for those
above it, on texts that are as long as `s`. The levels are, from the highest one: `climb`,
`leading` for expressions; `arrows`, `atomOf` for types. -/
structure Descending : Prop where
  climb : ∀ s least tight binary, Agree (s.length + 1) (tightExpr src) tight →
    (∀ level, Agree s.length (exprAt src level) (binary level)) →
    climb tight binary least s = exprAt src least s
  leading : ∀ s expr tight, Agree s.length (expression src) expr →
    Agree s.length (tightExpr src) tight → leading src expr tight s = tightExpr src s
  postfixed : ∀ s expr tight, Agree s.length (expression src) expr →
    Agree s.length (tightExpr src) tight →
    postfixed src expr tight s = postfixed src (expression src) (tightExpr src) s
  primary : ∀ s expr tight, Agree s.length (expression src) expr →
    Agree s.length (tightExpr src) tight →
    primary src expr tight s = primary src (expression src) (tightExpr src) s
  metadata : ∀ s expr, Agree s.length (expression src) expr →
    metadata src expr s = metadataEntry src s
  arrows : ∀ s part, Agree (s.length + 1) (atom src) part → arrows part s = complexType src s
  atomOf : ∀ s part, Agree s.length (atom src) part → atomOf src part s = atom src s
  typePath : ∀ s type, Agree s.length (complexType src) type →
    typePath type s = typePath (complexType src) s

end

section
variable {src : Source} {n : Nat}

theorem keeps_of_agree_expr {p q : Parser Expr} (heats : Eats 1 p) (h : Agree n p q) :
    Keeps (·.relocate id) 1 n p q := heats.keeps_of_agree Expr.relocate_id h

theorem keeps_of_agree_type {p q : Parser ComplexType} (heats : Eats 1 p) (h : Agree n p q) :
    Keeps (·.relocate id) 1 n p q := heats.keeps_of_agree ComplexType.relocate_id h

theorem metadataEntry_eq : metadataEntry src = metadata src (expression src) := by
  funext s
  have hexpr : Keeps id 1 s.length (binary src (stepsFor s) 0) (exprAt src 0) :=
    keeps_binary_exprAt src (Nat.le_add_right _ 2) 0
  rw [← relocate_id_eq] at hexpr
  exact ((keeps_metadata (moves_id src) hexpr).agree Metadata.relocate_id).eq.symm

theorem descending : Descending src where
  climb s least tight binary htight hbinary := by
    have hkeeps := keeps_climb (moves_id src)
      (fun level => keeps_of_agree_expr (eats_exprAt src level) (hbinary level))
      (keeps_of_agree_expr (eats_tightExpr src) htight) least
    rw [exprAt_eq]
    exact (hkeeps.agree Expr.relocate_id).eq
  leading s expr tight hexpr htight := by
    have hkeeps := keeps_leading (moves_id src) (keeps_of_agree_expr (eats_exprAt src 0) hexpr)
      (keeps_of_agree_expr (eats_tightExpr src) htight)
    rw [tightExpr_eq]
    exact (hkeeps.agree Expr.relocate_id).eq
  postfixed s expr tight hexpr htight := by
    have hkeeps := keeps_postfixed (moves_id src) (keeps_of_agree_expr (eats_exprAt src 0) hexpr)
      (keeps_of_agree_expr (eats_tightExpr src) htight)
    exact (hkeeps.agree Expr.relocate_id).eq
  primary s expr tight hexpr htight := by
    have hkeeps := keeps_primary (moves_id src) (keeps_of_agree_expr (eats_exprAt src 0) hexpr)
      (keeps_of_agree_expr (eats_tightExpr src) htight)
    exact (hkeeps.agree Expr.relocate_id).eq
  metadata s expr hexpr := by
    have hkeeps := keeps_metadata (moves_id src) (keeps_of_agree_expr (eats_exprAt src 0) hexpr)
    rw [metadataEntry_eq]
    exact (hkeeps.agree Metadata.relocate_id).eq
  arrows s part hpart := by
    have hkeeps := keeps_arrows (keeps_of_agree_type (eats_atom src) hpart)
    rw [complexType_eq]
    exact (hkeeps.agree ComplexType.relocate_id).eq
  atomOf s part hpart := by
    have hkeeps := keeps_atomOf (moves_id src) (keeps_of_agree_type (eats_atom src) hpart)
    rw [atom_eq]
    exact (hkeeps.agree ComplexType.relocate_id).eq
  typePath s type htype := by
    have hkeeps := keeps_typePath (keeps_of_agree_type (eats_complexType src) htype)
    exact (hkeeps.agree TypePath.relocate_id).eq

end

/-! ## What the productions repeat -/

/-- The parts that productions read again and again, and what stands between them. -/
inductive Repeated (src : Source) : {α : Type} → Parser α → Prop
  | arrow : Repeated src (do symbol "->"; atom src)
  | typeField : Repeated src (anonymousField src (complexType src))
  | typeArg : Repeated src (complexType src)
  | typeWord : Repeated src anyIdentifier
  | item : Repeated src (expression src)
  | varDecl (isFinal isStatic : Bool) :
    Repeated src (varDecl src (expression src) isFinal isStatic)
  | param : Repeated src (param src (expression src))
  | objectField : Repeated src (objectField (expression src))
  | statement : Repeated src (statement (expression src))
  | suffix (e : Expr) : Repeated src (suffix (expression src) e)
  | comma : Repeated src (symbol ",")
  | point : Repeated src (text ".")

theorem Repeated.eats {α : Type} {src : Source} {p : Parser α} (h : Repeated src p) :
    Eats 1 p := by
  have hm := moves_id src
  have he : ∀ n, Keeps (·.relocate id) 1 n (expression src) (expression src) :=
    fun _ => keeps_exprAt hm 0
  cases h with
  | arrow =>
    refine Keeps.eats fun n => ?_
    exact (keeps_symbol n (by decide)).andThen fun _ => ((eats_atom src).keeps n).weaken
  | typeField => exact eats_of_keeps_succ fun _ => keeps_anonymousField hm (keeps_complexType hm)
  | typeArg => exact eats_complexType src
  | typeWord => exact eats_anyIdentifier
  | item => exact eats_exprAt src 0
  | varDecl isFinal isStatic =>
    exact eats_of_keeps_succ fun n => keeps_varDecl hm (he n) isFinal isStatic
  | param => exact eats_of_keeps_succ fun n => keeps_param hm (he n)
  | objectField => exact eats_of_keeps_succ fun n => keeps_objectField (he n)
  | statement => exact Keeps.eats_left fun n => keeps_statement (he n)
  | suffix e => exact eats_of_keeps_succ fun n => keeps_suffix (he n) e
  | comma => exact eats_symbol (by decide)
  | point => exact Keeps.eats fun n => keeps_text n (by decide)

theorem eats_of_binaryStep {src : Source} {least : Nat} {left e : Expr} {s rest : List Char}
    (h : binaryStep (exprAt src) least left s = .done (some e) rest) :
    rest <:+ s ∧ rest.length < s.length := by
  have hb : ∀ level, Keeps (·.relocate id) 1 (s.length + 1) (exprAt src level) (exprAt src level) :=
    keeps_exprAt (moves_id src)
  have hans := (keeps_binaryStep (moves_id src) hb least left s (Nat.lt_succ_self _)).2
  rw [h] at hans
  exact ⟨hans.1, shrinks_binaryStep (moves_id src) hb (Nat.lt_succ_self _) h⟩

end Grammar

/-! ## Where a text is refused -/

namespace Entry

theorem skipTrailing_suffix (s : List Char) : skipTrailing s <:+ s := by
  unfold skipTrailing
  split
  · rename_i rest hrest
    have hsuffix := skipBlanks_suffix s
    rw [hrest] at hsuffix
    exact (skipBlanks_suffix rest).trans ((List.suffix_cons _ _).trans hsuffix)
  · exact skipBlanks_suffix s

def placeAfter (pos : Position) (read : List Char) : Position :=
  let offset := Position.clamp (pos.min.toNat + byteCount read)
  ⟨pos.file, offset, offset⟩

theorem span_end (pos : Position) (read rest : List Char) :
    (Source.of (read ++ rest) pos).span rest rest = placeAfter pos read := by
  simp only [Source.span, Source.offset, Source.of, placeAfter, byteCount_append,
    Nat.add_sub_cancel]

theorem placeAfter_within {text : String} {read rest : List Char} (h : text.toList = read ++ rest)
    (pos : Position) : (placeAfter pos read).Within
      ⟨pos.file, pos.min, Position.clamp (pos.min.toNat + text.utf8ByteSize)⟩ := by
  have hsuffix : rest <:+ text.toList := ⟨read, h.symm⟩
  rw [← span_end pos read rest, ← h]
  refine ⟨rfl, ?_, offset_le_size text pos rest⟩
  rw [← offset_start text pos]
  exact (Source.of text.toList pos).offset_le hsuffix

def RefusedAt (entry : Entry) (rest : List Char) (place : Position) (err : ParseError) : Prop :=
  err = .unexpected entry (snippet rest) place ∨ err = .trailing entry (snippet rest) place

theorem RefusedAt.pos_eq {entry : Entry} {rest : List Char} {place : Position} {err : ParseError}
    (h : RefusedAt entry rest place err) : err.pos = place := by
  rcases h with rfl | rfl <;> rfl

theorem refusedAt_of_readAll {α : Type} {k : Nat} {entry : Entry} {parser : Source → Parser α}
    {s : List Char} {pos : Position} {err : ParseError}
    (heats : Eats k (parser (Source.of s pos))) (h : readAll entry parser s pos = .error err) :
    Text.allBlank s = true ∧ err = .empty entry pos ∨
      ∃ read rest, s = read ++ rest ∧ RefusedAt entry rest (placeAfter pos read) err := by
  cases hblank : Text.allBlank s with
  | true =>
    rw [readAll_of_allBlank hblank] at h
    cases h
    exact .inl ⟨rfl, rfl⟩
  | false =>
    right
    have hans := heats s
    simp only [readAll, hblank, Bool.false_eq_true, if_false] at h
    cases hreply : parser (Source.of s pos) s with
    | done a rest =>
      rw [hreply] at h hans
      dsimp only at h
      cases hrest : skipTrailing rest with
      | nil =>
        rw [hrest] at h
        cases h
      | cons c left =>
        rw [hrest] at h
        cases h
        have hsuffix := skipTrailing_suffix rest
        rw [hrest] at hsuffix
        obtain ⟨read, rfl⟩ := hsuffix.trans hans.1
        exact ⟨read, c :: left, rfl, .inr (by rw [span_end])⟩
    | refused place =>
      rw [hreply] at h hans
      cases h
      obtain ⟨read, rfl⟩ := hans
      exact ⟨read, place, rfl, .inl (by rw [span_end])⟩
    | exhausted =>
      rw [hreply] at hans
      exact hans.elim

end Entry

theorem error_of_map {α β ε : Type} {f : α → β} {x : Except ε α} {e : ε}
    (h : x.map f = .error e) : x = .error e := by
  cases x with
  | ok a => cases h
  | error e' =>
    cases h
    rfl

theorem Fragment.refusedAt_of_parse {entry : Entry} {text : String} {pos : Position}
    {err : ParseError} (h : Fragment.parse entry text pos = .error err) :
    Text.allBlank text.toList = true ∧ err = .empty entry pos ∨
      ∃ read rest, text.toList = read ++ rest ∧
        entry.RefusedAt rest (Entry.placeAfter pos read) err := by
  have hall := answering (Source.of text.toList pos)
  cases entry with
  | expr => exact Entry.refusedAt_of_readAll hall.eats_expression (error_of_map h)
  | metadata => exact Entry.refusedAt_of_readAll hall.eats_metadata (error_of_map h)
  | type => exact Entry.refusedAt_of_readAll hall.eats_type (error_of_map h)

/-! ## Both together -/

/-- Every production answers on every text, in a number of steps that grows with the text; it goes
on with itself only on shorter texts, and repeats only what reads something. So a text that is
refused, and holds more than white space, is refused at one of its ends. -/
theorem parse_progresses :
    (∀ src, Answering src ∧ Bounded src ∧ Descending src ∧
      (∀ (α : Type) (p : Parser α), Repeated src p → Eats 1 p) ∧
      ∀ least left e s rest, binaryStep (exprAt src) least left s = .done (some e) rest →
        rest <:+ s ∧ rest.length < s.length) ∧
    ∀ entry text pos err, Fragment.parse entry text pos = .error err →
      Text.allBlank text.toList = true ∧ err = .empty entry pos ∨
      ∃ read rest, text.toList = read ++ rest ∧
        entry.RefusedAt rest (Entry.placeAfter pos read) err ∧
        err.pos.Within ⟨pos.file, pos.min, Position.clamp (pos.min.toNat + text.utf8ByteSize)⟩ := by
  refine ⟨fun src => ⟨answering src, bounded src, descending, fun _ _ => Repeated.eats,
    fun _ _ _ _ _ => eats_of_binaryStep⟩, fun entry text pos err h => ?_⟩
  rcases Fragment.refusedAt_of_parse h with hempty | ⟨read, rest, htext, hrefused⟩
  · exact .inl hempty
  · refine .inr ⟨read, rest, htext, hrefused, ?_⟩
    rw [hrefused.pos_eq]
    exact Entry.placeAfter_within htext pos

/-- Of `f(1`, the name is read; the rest is refused. -/
theorem parse_progresses_unclosed :
    (∃ src left e rest, binary src 8 0 "f(1".toList = exprAt src 0 "f(1".toList ∧
      leading src (binary src 6 0) (operand src 5) "f(1".toList = tightExpr src "f(1".toList ∧
      Eats 1 (statement (expression src)) ∧
      binaryStep (exprAt src) 0 left "+1;".toList = .done (some e) rest ∧ rest <:+ "+1;".toList) ∧
    ∃ err, Fragment.parse .expr "f(1" ⟨3, 10, 0⟩ = .error err ∧ err.pos = ⟨3, 11, 11⟩ ∧
      err.pos.Within ⟨3, 10, 13⟩ := by
  constructor
  · obtain ⟨-, hbounded, hdescending, hrepeated, hstep⟩ := parse_progresses.1 ⟨3, 10, 3⟩
    have hexpr : Agree 3 (expression ⟨3, 10, 3⟩) (binary ⟨3, 10, 3⟩ 6 0) :=
      fun t ht => hbounded.binary 6 t (by omega) 0
    have htight : Agree 3 (tightExpr ⟨3, 10, 3⟩) (operand ⟨3, 10, 3⟩ 5) :=
      fun t ht => hbounded.operand 5 t (by omega)
    have hplus : binaryStep (exprAt ⟨3, 10, 3⟩) 0 ⟨.const (.ident "f"), .null⟩ "+1;".toList =
        .done (some _) [';'] := rfl
    exact ⟨_, _, _, _, hbounded.binary 8 _ (by decide) 0,
      hdescending.leading _ _ _ hexpr htight, hrepeated _ _ .statement, hplus,
      (hstep _ _ _ _ _ hplus).1⟩
  · have hrun : Fragment.parse .expr "f(1" ⟨3, 10, 0⟩ =
        .error (.trailing .expr "(1" ⟨3, 11, 11⟩) := rfl
    refine ⟨_, hrun, rfl, ?_⟩
    rcases parse_progresses.2 _ _ _ _ hrun with ⟨-, hempty⟩ | ⟨_, _, -, -, hwithin⟩
    · cases hempty
    · exact hwithin

end HaxeMacro
