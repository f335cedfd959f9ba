import HaxeMacro.Proofs.Fragment.Nesting
import HaxeMacro.Proofs.Parser.Expressions
import HaxeMacro.Proofs.Parser.Repetitions

/-! # Pieces in a row

What is read from a text stands in it from where the reading starts to where it ends. A parser lays
out pieces if they stand there one after the other, each with its own pieces inside. One rule a
combinator: what is read later stands after what was read before.
-/

namespace HaxeMacro

open Parser Token Grammar Position

/-! ## Offsets -/

theorem Position.clamp_mono {m n : Nat} (h : m ≤ n) : clamp m ≤ clamp n := by
  have hm : (clamp m).toNat = Min.min m limit := toNat_clamp m
  have hn : (clamp n).toNat = Min.min n limit := toNat_clamp n
  rw [UInt32.le_iff_toNat_le, hm, hn]
  omega

namespace Grammar

theorem byteCount_append (s t : List Char) : byteCount (s ++ t) = byteCount s + byteCount t := by
  induction s with
  | nil => exact (Nat.zero_add _).symm
  | cons c s ih =>
    change c.utf8Size + byteCount (s ++ t) = c.utf8Size + byteCount s + byteCount t
    rw [ih, Nat.add_assoc]

theorem byteCount_le {s rest : List Char} (h : rest <:+ s) : byteCount rest ≤ byteCount s := by
  obtain ⟨read, rfl⟩ := h
  rw [byteCount_append]
  exact Nat.le_add_left _ _

theorem byteCount_toList (text : String) : byteCount text.toList = text.utf8ByteSize := by
  have hlist : ∀ s : List Char, byteCount s = (String.ofList s).utf8ByteSize := by
    intro s
    induction s with
    | nil => rfl
    | cons c s ih =>
      rw [byteCount, List.foldr_cons, ← byteCount, ih, String.ofList_cons,
        String.utf8ByteSize_append, String.utf8ByteSize_singleton]
  rw [hlist, String.ofList_toList]

theorem Source.offset_le (src : Source) {s rest : List Char} (h : rest <:+ s) :
    src.offset s ≤ src.offset rest := by
  have hcount := byteCount_le h
  exact Position.clamp_mono (by omega)

end Grammar

/-! ## Rows -/

/-- The pieces stand in the text from where `s` is left to where `rest` is left, one after the
other, and their spans are nested. -/
structure Row (src : Source) (s : List Char) (ps : List Piece) (rest : List Char) : Prop where
  spread : Spread (src.offset s) (ps.map Piece.pos) (src.offset rest)
  nested : ∀ p ∈ ps, p.Nested src.file

namespace Row

variable {src : Source} {s middle rest : List Char} {ps qs : List Piece}

theorem nil (h : rest <:+ s) : Row src s [] rest := ⟨src.offset_le h, by simp⟩

theorem append (h : Row src s ps middle) (h' : Row src middle qs rest) :
    Row src s (ps ++ qs) rest := by
  refine ⟨?_, List.forall_mem_append.mpr ⟨h.nested, h'.nested⟩⟩
  rw [List.map_append]
  exact h.spread.append h'.spread

theorem before (hs : middle <:+ s) (h : Row src middle ps rest) : Row src s ps rest :=
  (nil hs).append h

theorem after (h : Row src s ps middle) (hrest : rest <:+ middle) : Row src s ps rest := by
  rw [← List.append_nil ps]
  exact h.append (nil hrest)

theorem clear (h : Row src s ps rest) : Row src s [] rest := ⟨h.spread.le, by simp⟩

/-- What has the span of all that was read holds the pieces that were read. -/
theorem wrap {p : Piece} (h : Row src s p.inside rest) (hpos : p.pos = src.span s rest) :
    Row src s [p] rest := by
  have hle := h.spread.le
  refine ⟨?_, List.forall_mem_singleton.mpr (.mk ?_ ?_ h.nested)⟩
  · rw [List.map_singleton, hpos]
    exact ⟨UInt32.le_refl _, hle, UInt32.le_refl _⟩
  · rw [hpos]
    rfl
  · rw [hpos]
    exact h.spread

/-- What has the span from the first piece to the last holds the pieces. -/
theorem join (ps : List Piece) {p first last : Piece} (hsrc : src.file ≠ noFile)
    (h : Row src s (first :: (ps ++ [last])) rest) (hinside : p.inside = first :: (ps ++ [last]))
    (hpos : p.pos = first.pos.union last.pos) : Row src s [p] rest := by
  have hnull : ∀ q ∈ p.inside, q.pos.isNull = false := by
    intro q hq
    rw [hinside] at hq
    simpa [isNull, (h.nested q hq).file_eq] using hsrc
  have hspread := h.spread
  rw [List.map_cons, List.map_append] at hspread
  obtain ⟨hwhole, hparts, hfile⟩ := hspread.union (hnull first (by simp [hinside]))
    (hnull last (by simp [hinside]))
  refine ⟨?_, List.forall_mem_singleton.mpr (.mk ?_ ?_ ?_)⟩
  · rw [List.map_singleton, hpos]
    exact hwhole
  · rw [hpos, hfile]
    exact (h.nested first List.mem_cons_self).file_eq
  · rw [hpos, hinside, List.map_cons, List.map_append]
    exact hparts
  · rw [hinside]
    exact h.nested

end Row

/-! ## Parsers -/

namespace Parser

variable {α β : Type}

/-- After the pieces `before`, what the parser gives stands as the pieces `after` says. -/
def Lays (src : Source) (before : List Piece) (after : α → List Piece) (p : Parser α) : Prop :=
  ∀ s₀ s a rest, Row src s₀ before s → p s = .done a rest → Row src s₀ (after a) rest

theorem Eats.suffix {k : Nat} {p : Parser α} (h : Eats k p) {s rest : List Char} {a : α}
    (hp : p s = .done a rest) : rest <:+ s := by
  have hans := h s
  rw [hp] at hans
  exact hans.1

theorem Eats.optional {k : Nat} {p : Parser α} (h : Eats k p) : Eats 0 (Parser.optional p) :=
  Keeps.eats_left fun n => (h.keeps n).optional

theorem Eats.present {k : Nat} {p : Parser α} (h : Eats k p) : Eats 0 (Parser.present p) :=
  Keeps.eats fun n => (h.keeps n).present

namespace Lays

variable {src : Source} {before : List Piece} {parts : α → List Piece} {middle : α → List Piece}
  {after : β → List Piece} {p q : Parser α} {f : α → Parser β} {k : Nat}

theorem pure {b : β} (h : after b = before) : Lays src before after (Pure.pure b) := by
  intro s₀ s a rest hrow hp
  cases hp
  rw [h]
  exact hrow

theorem bind (hp : Lays src before middle p) (hf : ∀ a, Lays src (middle a) after (f a)) :
    Lays src before after (p >>= f) := by
  intro s₀ s b rest hrow h
  obtain ⟨a, t, ha, hb⟩ := bind_eq_done h
  exact hf a s₀ t b rest (hp s₀ s a t hrow ha) hb

theorem skip (hp : Eats k p) (hf : ∀ a, Lays src before after (f a)) :
    Lays src before after (p >>= f) := by
  intro s₀ s b rest hrow h
  obtain ⟨a, t, ha, hb⟩ := bind_eq_done h
  exact hf a s₀ t b rest (hrow.after (hp.suffix ha)) hb

/-- What is read first may be read after other pieces. -/
theorem frame (hp : Lays src [] parts p) : Lays src before (fun a => before ++ parts a) p :=
  fun _ s a rest hrow h => hrow.append (hp s s a rest (.nil (List.suffix_refl s)) h)

theorem or (hp : Lays src before parts p) (hq : Lays src before parts q) :
    Lays src before parts (Parser.or p q) := by
  intro s₀ s a rest hrow h
  rcases or_eq_done h with h | ⟨-, h⟩
  · exact hp s₀ s a rest hrow h
  · exact hq s₀ s a rest hrow h

theorem oneOf {ps : List (Parser α)} (h : ∀ p ∈ ps, Lays src before parts p) :
    Lays src before parts (Parser.oneOf ps) := by
  intro s₀ s a rest hrow hp
  obtain ⟨p, hmem, hp⟩ := oneOf_eq_done hp
  exact h p hmem s₀ s a rest hrow hp

theorem optional (hp : Lays src before parts p) :
    Lays src before (fun a? => a?.elim before parts) (Parser.optional p) := by
  intro s₀ s a? rest hrow h
  rcases optional_eq_done h with ⟨a, rfl, ha⟩ | ⟨rfl, rfl, -⟩
  · exact hp s₀ s a rest hrow ha
  · exact hrow

theorem many (hp : Lays src [] parts p) :
    Lays src [] (fun as => as.flatMap parts) (Parser.many p) := by
  intro s₀ s
  unfold Parser.many
  generalize s.length + 1 = steps
  induction steps generalizing s₀ s with
  | zero =>
    intro as rest _ h
    cases h
  | succ steps ih =>
    intro as rest hrow h
    unfold manyWithin at h
    split at h
    · rename_i a t ha
      split at h
      · rename_i others rest hothers
        cases h
        exact (hp s₀ s a t hrow ha).append (ih t t others _ (.nil (List.suffix_refl t)) hothers)
      · cases h
      · cases h
    · cases h
      exact hrow
    · cases h

theorem sepBy1 {separator : Parser β} (hp : Lays src [] parts p) (hs : Eats k separator) :
    Lays src [] (fun as => as.flatMap parts) (Parser.sepBy1 p separator) := by
  refine hp.bind fun first => ?_
  have hothers : Lays src [] (fun as => as.flatMap parts) (Parser.many do let _ ← separator; p) :=
    many (skip hs fun _ => hp)
  exact hothers.frame.bind fun others => pure rfl

theorem sepBy {separator : Parser β} (hp : Lays src [] parts p) (hs : Eats k separator) :
    Lays src [] (fun as => as.flatMap parts) (Parser.sepBy p separator) := by
  refine (hp.sepBy1 hs).optional.bind fun as? => ?_
  cases as? <;> exact pure rfl

theorem fromHere {q : List Char → Parser α}
    (h : ∀ start a rest, q start start = .done a rest → Row src start (parts a) rest) :
    Lays src [] parts (do blanks; q (← here)) := by
  intro s₀ s a rest hrow hp
  exact hrow.append ((h (skipBlanks s) a rest hp).before (skipBlanks_suffix s))

end Lays

/-- The parser gives expressions whose spans are nested, where they stand in the text. -/
def Stands (src : Source) (p : Parser Expr) : Prop := Lays src [] (fun e => [.expr e]) p

end Parser

end HaxeMacro
