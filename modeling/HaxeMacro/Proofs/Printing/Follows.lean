import HaxeMacro.Proofs.Printing.ReadForms
import HaxeMacro.Proofs.Printing.Starts

/-! # What may follow an expression

A printed expression is read back if what follows it is not taken for a part of it: by the words
and types that it ends with, by the forms along its edge, and by the operators before it.
-/

namespace HaxeMacro

open Parser Token Grammar

namespace Grammar

/-! ## Forms that start with a keyword -/

/-- The keywords that each of the forms starts with, in the order in which the forms are tried. -/
def formWords : List (List String) := [
  ["static", "var", "final"], ["function"], ["if"], ["while"], ["do"], ["for"], ["new"], ["cast"],
  ["return"], ["throw"], ["untyped"], ["break"], ["continue"]]

section
variable (src : Source) (expr tight : Parser Expr)

def keywordForms : List (Parser ExprKind) := [
  varExpr src expr,
  functionExpr src expr,
  ifExpr expr,
  whileExpr expr,
  doWhileExpr expr,
  forExpr src expr,
  newExpr src expr,
  castExpr src expr tight,
  do keyword "return"; return .ret (← optional expr),
  do keyword "throw"; return .throw (← expr),
  do keyword "untyped"; return .untyped (← expr),
  do keyword "break"; return .brk,
  do keyword "continue"; return .cont]

/-- The other forms, but for constants, each with the mark that it starts with. -/
def markedForms : List (Char × Parser ExprKind) := [
  ('@', metaExpr src expr), ('(', parenExpr src expr), ('[', arrayExpr expr),
  ('\x7b', braces expr)]

theorem keywordExpr_eq : keywordExpr src expr tight = oneOf (keywordForms src expr tight) := rfl

theorem primary_apply {s t : List Char} (ht : skipBlanks t = s) :
    primary src expr tight t = (do
      let kind ← oneOf
        (keywordExpr src expr tight :: (markedForms src expr).map (·.2) ++ [constant])
      return ⟨kind, src.span s (← here)⟩ : Parser Expr) s := by
  have hblanks : blanks t = .done () s := by rw [blanks, ht]
  rw [primary, bind_of_done hblanks, bind_of_done (here_apply _)]
  rfl

theorem refuses_keywordForm {t : List Char} (i : Nat)
    (hi : i < (keywordForms src expr tight).length)
    (h : ∀ word ∈ formWords[i]?.getD [], Refuses (keyword word) t) :
    Refuses (keywordForms src expr tight)[i] t := by
  match i, h with
  | 0, h =>
    refine Refuses.next (h "static" (by decide)).present_eq (Refuses.bind ?_)
    exact (h "var" (by decide)).bind.or (h "final" (by decide)).bind
  | 1, h | 2, h | 3, h | 4, h | 5, h | 6, h | 7, h | 8, h | 9, h | 10, h | 11, h | 12, h =>
    exact (h _ (List.mem_singleton_self _)).bind

end

section
variable {src : Source} {expr tight : Parser Expr}

theorem refuses_keywordExpr {t : List Char}
    (h : ∀ words ∈ formWords, ∀ word ∈ words, Refuses (keyword word) t) :
    Refuses (keywordExpr src expr tight) t := by
  rw [keywordExpr_eq]
  refine refuses_oneOf fun p hp => ?_
  obtain ⟨i, hi, rfl⟩ := List.getElem_of_mem hp
  refine refuses_keywordForm src expr tight i hi fun word hword => ?_
  have hlength : i < formWords.length := hi
  rw [List.getElem?_eq_getElem hlength, Option.getD_some] at hword
  exact h _ (List.getElem_mem hlength) word hword

theorem formWords_reserved : ∀ words ∈ formWords, ∀ word ∈ words, word ∈ reserved := by decide

theorem refuses_keywordExpr_word {word : String} {s : List Char} (hword : IsName word)
    (hs : Breaks s) (hother : ∀ words ∈ formWords, word ∉ words) :
    Refuses (keywordExpr src expr tight) (chars word ++ s) := by
  refine refuses_keywordExpr fun words hwords other hmem => ?_
  refine refuses_keyword (formWords_reserved words hwords other hmem) hword hs ?_
  rintro rfl
  exact hother words hwords hmem

theorem refuses_keywordExpr_mark {t : List Char}
    (ht : ∀ c ∈ (skipBlanks t).head?, Text.startsName c = false) :
    Refuses (keywordExpr src expr tight) t :=
  refuses_keywordExpr fun words hwords word hword =>
    refuses_keyword_mark (formWords_reserved words hwords word hword) ht

theorem keywordExpr_of_done {word : String} {s rest : List Char} {kind : ExprKind} (i : Nat)
    (hi : i < (keywordForms src expr tight).length) (hword : IsName word) (hs : Breaks s)
    (hbefore : ∀ words ∈ formWords.take i, word ∉ words)
    (h : (keywordForms src expr tight)[i] (chars word ++ s) = .done kind rest) :
    keywordExpr src expr tight (chars word ++ s) = .done kind rest := by
  rw [keywordExpr_eq]
  refine oneOf_of_getElem i hi (fun j hj hlt => ?_) h
  refine refuses_keywordForm src expr tight j hj fun other hother => ?_
  have hlength : j < formWords.length := hj
  rw [List.getElem?_eq_getElem hlength, Option.getD_some] at hother
  have hmem := List.getElem_mem hlength
  refine refuses_keyword (formWords_reserved _ hmem other hother) hword hs ?_
  rintro rfl
  exact hbefore _ (List.mem_take_iff_getElem.mpr ⟨j, by omega, rfl⟩) hother

/-! ## Forms that start with a mark -/

theorem refuses_symbol_head {word : String} {c : Char} {w t : List Char}
    (hword : word.toList = c :: w) (ht : ∀ d ∈ (skipBlanks t).head?, d ≠ c) :
    Refuses (symbol word) t := by
  have hblanks : blanks t = .done () (skipBlanks t) := rfl
  exact Refuses.next hblanks (refuses_text hword ht)

theorem refuses_markedForm {entry : Char × Parser ExprKind} (hentry : entry ∈ markedForms src expr)
    {t : List Char} (ht : ∀ c ∈ (skipBlanks t).head?, c ≠ entry.1) : Refuses entry.2 t := by
  simp only [markedForms, List.mem_cons, List.not_mem_nil, or_false] at hentry
  rcases hentry with rfl | rfl | rfl | rfl
  · have hblanks : blanks t = .done () (skipBlanks t) := rfl
    refine Refuses.bind (Refuses.next hblanks (Refuses.next (here_apply _) (Refuses.bind ?_)))
    exact refuses_text (c := '@') (w := []) rfl ht
  · exact (refuses_symbol_head (c := '(') (w := []) rfl ht).bind
  · exact (refuses_symbol_head (c := '[') (w := []) rfl ht).bind
  · exact (refuses_symbol_head (c := '\x7b') (w := []) rfl ht).bind

theorem forms_of_mark {c : Char} {p : Parser ExprKind} (hp : (c, p) ∈ markedForms src expr)
    {s rest : List Char} {kind : ExprKind} (h : p (c :: s) = .done kind rest) :
    oneOf (keywordExpr src expr tight :: (markedForms src expr).map (·.2) ++ [constant]) (c :: s) =
      .done kind rest := by
  have hmarks : (markedForms src expr).map (·.1) = ['@', '(', '[', '\x7b'] := rfl
  have hc : c ∈ ['@', '(', '[', '\x7b'] := by
    rw [← hmarks]
    exact List.mem_map_of_mem hp
  have hshape : ∀ c ∈ ['@', '(', '[', '\x7b'], startsBlank c = false ∧ Text.startsName c = false :=
    List.all_iff_forall_prop.mp (by decide)
  obtain ⟨hblank, hname⟩ := hshape c hc
  have hskip := skipBlanks_cons s hblank
  obtain ⟨before, after, heq⟩ := List.append_of_mem hp
  have hunique : (['@', '(', '[', '\x7b'] : List Char).Nodup := by decide
  rw [← hmarks, heq, List.map_append, List.map_cons, List.nodup_append] at hunique
  have hforms : keywordExpr src expr tight :: (markedForms src expr).map (·.2) ++ [constant] =
      (keywordExpr src expr tight :: before.map (·.2)) ++ p :: (after.map (·.2) ++ [constant]) := by
    rw [heq]
    simp
  rw [hforms]
  refine oneOf_of_done (fun q hq => ?_) h
  rcases List.mem_cons.mp hq with rfl | hq
  · refine refuses_keywordExpr_mark fun d hd => ?_
    rw [hskip] at hd
    cases hd
    exact hname
  · obtain ⟨entry, hentry, rfl⟩ := List.mem_map.mp hq
    have hmem : entry ∈ markedForms src expr := by
      rw [heq]
      exact List.mem_append_left _ hentry
    refine refuses_markedForm hmem fun d hd => ?_
    rw [hskip] at hd
    cases hd
    exact (hunique.2.2 _ (List.mem_map_of_mem hentry) _ List.mem_cons_self).symm

end

/-! ## Texts that start no expression -/

section
variable {src : Source} {expr tight : Parser Expr} {s t : List Char}

theorem refuses_regexpLiteral (hs : ∀ c ∈ s.head?, c ≠ '~') : Refuses regexpLiteral s := by
  refine ⟨s, ?_⟩
  unfold regexpLiteral
  split
  · exact absurd rfl (hs '~' rfl)
  · rfl

theorem refuses_identifier (ht : ∀ c ∈ (skipBlanks t).head?, Text.startsName c = false) :
    Refuses identifier t := by
  have hblanks : blanks t = .done () (skipBlanks t) := rfl
  exact Refuses.next hblanks (Refuses.next (here_apply _) (refuses_name ht).bind)

theorem refuses_constant (hs : ∀ c ∈ s.head?, "0123456789\"'~".toList.contains c = false)
    (hname : Refuses identifier s) : Refuses constant s := by
  have hne : ∀ c ∈ s.head?, ∀ d ∈ "0123456789\"'~".toList, c ≠ d := by
    rintro c hc d hd rfl
    exact absurd (List.contains_iff_mem.mpr hd) (by rw [hs c hc]; decide)
  refine refuses_oneOf fun p hp => ?_
  simp only [List.mem_cons, List.not_mem_nil, or_false] at hp
  rcases hp with rfl | rfl | rfl | rfl
  · refine (refuses_number fun c hc => ?_).bind
    rw [Bool.eq_false_iff]
    intro hdigit
    have hall : ∀ d ∈ "0123456789".toList, d ∈ "0123456789\"'~".toList :=
      List.all_iff_forall_prop.mp (by decide)
    exact hne c hc c (hall c (Text.isDigit_mem hdigit)) rfl
  · refine (refuses_stringLiteral fun c hc => ⟨hne c hc '"' ?_, hne c hc '\'' ?_⟩).bind <;> decide
  · exact (refuses_regexpLiteral fun c hc => hne c hc '~' (by decide)).bind
  · exact hname.bind

theorem refuses_leadingOp (hs : ∀ c ∈ s.head?, "+-.!~".toList.contains c = false) :
    Refuses leadingOp s := by
  have hne : ∀ d ∈ s.head?, ∀ e ∈ "+-.!~".toList, d ≠ e := by
    rintro d hd e he rfl
    exact absurd (List.contains_iff_mem.mpr he) (by rw [hs d hd]; decide)
  refine refuses_oneOf fun p hp => ?_
  simp only [List.mem_cons, List.not_mem_nil, or_false] at hp
  rcases hp with rfl | rfl | rfl | rfl | rfl | rfl
  · exact (refuses_text (c := '+') (w := ['+']) rfl fun d hd => hne d hd '+' (by decide)).bind
  · exact (refuses_text (c := '-') (w := ['-']) rfl fun d hd => hne d hd '-' (by decide)).bind
  · exact (refuses_text (c := '.') (w := ['.', '.']) rfl fun d hd => hne d hd '.' (by decide)).bind
  · exact (refuses_text (c := '!') (w := []) rfl fun d hd => hne d hd '!' (by decide)).bind
  · exact (refuses_text (c := '-') (w := []) rfl fun d hd => hne d hd '-' (by decide)).bind
  · exact (refuses_text (c := '~') (w := []) rfl fun d hd => hne d hd '~' (by decide)).bind

theorem tightExpr_apply (ht : skipBlanks t = s) (hop : Refuses leadingOp s) :
    tightExpr src t = postfixed src (exprAt src 0) (tightExpr src) s := by
  have hblanks : blanks t = .done () s := by rw [blanks, ht]
  have hleading : leading src (exprAt src 0) (tightExpr src) t =
      postfixed src (exprAt src 0) (tightExpr src) s := by
    rw [leading, bind_of_done hblanks, bind_of_done (here_apply _), bind_of_done hop.optional_eq]
  exact (congrFun (tightExpr_eq src) t).trans hleading

theorem refuses_exprAt (least : Nat) (ht : skipBlanks t = s) (hs : skipBlanks s = s)
    (hhead : ∀ c ∈ s.head?, marks.contains c = false ∧ c ≠ '"' ∧ c ≠ '\'')
    (hkeyword : Refuses (keywordExpr src (exprAt src 0) (tightExpr src)) s)
    (hname : Refuses identifier s) : Refuses (exprAt src least) t := by
  have hmark : ∀ c ∈ s.head?, c ∉ marks := by
    intro c hc hmem
    exact absurd (List.contains_iff_mem.mpr hmem) (by rw [(hhead c hc).1]; decide)
  have hop : Refuses leadingOp s := by
    refine refuses_leadingOp fun c hc => ?_
    rw [Bool.eq_false_iff]
    intro hcontains
    have hall : ∀ c ∈ "+-.!~".toList, c ∈ marks := List.all_iff_forall_prop.mp (by decide)
    exact hmark c hc (hall c (List.contains_iff_mem.mp hcontains))
  have hconstant : Refuses constant s := by
    refine refuses_constant (fun c hc => ?_) hname
    rw [Bool.eq_false_iff]
    intro hcontains
    have hall : ∀ c ∈ "0123456789\"'~".toList, c ∈ marks ∨ c = '"' ∨ c = '\'' :=
      List.all_iff_forall_prop.mp (by decide)
    rcases hall c (List.contains_iff_mem.mp hcontains) with h | h | h
    · exact hmark c hc h
    · exact (hhead c hc).2.1 h
    · exact (hhead c hc).2.2 h
  have hblanks : blanks s = .done () s := by rw [blanks, hs]
  rw [exprAt_eq]
  refine Refuses.bind ?_
  have htight : tightExpr src t = _ := tightExpr_apply ht hop
  refine (Refuses.next hblanks (Refuses.next (here_apply _) (Refuses.bind ?_))).imp fun _ h =>
    htight.trans h
  refine Exists.imp (fun _ h => (primary_apply _ _ _ hs).trans h) (Refuses.bind (refuses_oneOf ?_))
  intro p hp
  rcases List.mem_append.mp hp with hp | hp
  · rcases List.mem_cons.mp hp with rfl | hp
    · exact hkeyword
    · obtain ⟨entry, hentry, rfl⟩ := List.mem_map.mp hp
      refine refuses_markedForm hentry fun c hc => ?_
      rw [hs] at hc
      rintro rfl
      have hall : ∀ entry ∈ markedForms src (exprAt src 0), entry.1 ∈ marks := by
        simp only [markedForms, List.forall_mem_cons, List.not_mem_nil, false_implies, implies_true,
          and_true]
        exact ⟨by decide, by decide, by decide, by decide⟩
      exact hmark _ hc (hall entry hentry)
  · rw [List.mem_singleton.mp hp]
    exact hconstant

end

/-! ## Texts that put nothing after an expression -/

theorem refuses_binaryOp {t : List Char}
    (ht : ∀ c ∈ (skipBlanks t).head?, "><?.&|=!+-*/%^".toList.contains c = false) :
    Refuses binaryOp t := by
  have hblanks : blanks t = .done () (skipBlanks t) := rfl
  refine Refuses.next hblanks (refuses_oneOf fun p hp => ?_)
  obtain ⟨⟨word, op⟩, hmem, rfl⟩ := List.mem_map.mp hp
  have hall : ∀ entry ∈ binarySymbols, ∃ c ∈ entry.1.toList.head?, c ∈ "><?.&|=!+-*/%^".toList := by
    have hheads : binarySymbols.all (fun entry =>
        entry.1.toList.head?.any "><?.&|=!+-*/%^".toList.contains) = true := by decide
    intro entry hentry
    obtain ⟨c, hc, hcontains⟩ :=
      (Option.any_eq_true _ _).mp (List.all_eq_true.mp hheads entry hentry)
    exact ⟨c, hc, List.contains_iff_mem.mp hcontains⟩
  obtain ⟨c, hc, hcmem⟩ := hall _ hmem
  obtain ⟨w, hword⟩ := List.head?_eq_some_iff.mp hc
  refine (refuses_text hword ?_).bind
  rintro d hd rfl
  exact absurd (List.contains_iff_mem.mpr hcmem) (by rw [ht d hd]; decide)

theorem refuses_ternaryMark {t : List Char} (ht : ∀ c ∈ (skipBlanks t).head?, c ≠ '?') :
    Refuses ternaryMark t := (refuses_symbol_head (c := '?') (w := []) rfl ht).bind

theorem blocked_of_head {s : List Char} (least : Nat)
    (hs : ∀ c ∈ (skipBlanks s).head?, "><?.&|=!+-*/%^".toList.contains c = false) :
    Blocked least s := by
  refine ⟨fun op rest h => absurd h (refuses_binaryOp hs).not_done, fun _ => ?_⟩
  refine refuses_ternaryMark fun c hc => ?_
  rintro rfl
  exact absurd (hs '?' hc) (by decide)

theorem noSuffix_of_head {src : Source} {s : List Char}
    (hs : ∀ c ∈ (skipBlanks s).head?, ".([+-".toList.contains c = false) : NoSuffix src s := by
  intro e
  have hne : ∀ c ∈ (skipBlanks s).head?, ∀ d ∈ ".([+-".toList, c ≠ d := by
    rintro c hc d hd rfl
    exact absurd (List.contains_iff_mem.mpr hd) (by rw [hs c hc]; decide)
  have hrefuses {word : String} {d : Char} {w : List Char} (hword : word.toList = d :: w)
      (hd : d ∈ ".([+-".toList) : Refuses (symbol word) s :=
    refuses_symbol_head hword fun c hc => hne c hc d hd
  refine refuses_oneOf fun p hp => ?_
  simp only [List.mem_cons, List.not_mem_nil, or_false] at hp
  rcases hp with rfl | rfl | rfl | rfl
  · exact (hrefuses (w := []) rfl (by decide)).bind
  · exact (hrefuses (w := []) rfl (by decide)).bind.bind
  · exact (hrefuses (w := []) rfl (by decide)).bind
  · have hblanks : blanks s = .done () (skipBlanks s) := rfl
    refine Refuses.bind (Refuses.next hblanks (refuses_oneOf fun p hp => ?_))
    simp only [List.mem_cons, List.not_mem_nil, or_false] at hp
    rcases hp with rfl | rfl
    · exact (refuses_text (c := '+') (w := ['+']) rfl fun c hc => hne c hc '+' (by decide)).bind
    · exact (refuses_text (c := '-') (w := ['-']) rfl fun c hc => hne c hc '-' (by decide)).bind

theorem refuses_elsePart {src : Source} {s : List Char}
    (hs : ∀ c ∈ (skipBlanks s).head?, c ≠ ';' ∧ c ≠ 'e') : Refuses (elsePart src) s := by
  have hmark : Refuses (symbol ";") s :=
    refuses_symbol_head (c := ';') (w := []) rfl fun c hc => (hs c hc).1
  refine Refuses.next hmark.optional_eq (Refuses.bind (Refuses.bind ?_))
  exact refuses_symbol_head (c := 'e') (w := ['l', 's', 'e']) rfl fun c hc => (hs c hc).2

theorem Blocked.mono {m n : Nat} {s : List Char} (h : Blocked m s) (hle : m ≤ n) : Blocked n s :=
  ⟨fun op rest hop => Nat.lt_of_lt_of_le (h.operator op rest hop) hle,
    fun hn => h.ternary (Nat.le_trans hle hn)⟩

end Grammar

/-! ## After one expression -/

/-- A declaration of variables does not go on. -/
structure DeclarationEnds (s : List Char) : Prop extends TypeEnds s where
  noHint : Refuses (symbol ":") s
  noInit : Refuses (symbol "=") s
  noOther : Refuses (symbol ",") s
  blocked : Blocked 0 s

namespace ExprKind

/-- What the forms along the edge of an expression let follow. -/
structure Fits (kind : ExprKind) (s : List Char) : Prop where
  breaks : Breaks s
  ends : EndsAt .nowhere kind s
  value : kind.endsWith isBareReturn = true → Refuses (exprAt .nowhere 0) s
  declared : kind.endsWith isDeclaration = true → DeclarationEnds s

/-- Nothing that follows the expression is put after it. -/
structure Stops (kind : ExprKind) (s : List Char) : Prop extends Fits kind s where
  blocked : Blocked 0 s
  noSuffix : NoSuffix .nowhere s

variable {kind : ExprKind} {e : Expr} {s : List Char}

theorem Fits.last (h : kind.Fits s) (hlast : kind.lastPart = some e) : e.kind.Fits s where
  breaks := h.breaks
  ends := ⟨fun he => h.ends.greedy (endsWith_of_last hlast he),
    fun he => h.ends.elseless (endsWith_of_last hlast he)⟩
  value := fun he => h.value (endsWith_of_last hlast he)
  declared := fun he => h.declared (endsWith_of_last hlast he)

/-- Where something can be put after the last part of a greedy form, it is. -/
theorem Fits.stops_last (h : kind.Fits s) (hlast : kind.lastPart = some e)
    (hgreedy : kind.isGreedy = true) (hsuffix : NoSuffix .nowhere s) : e.kind.Stops s :=
  ⟨h.last hlast, h.ends.greedy (endsWith_self hgreedy), hsuffix⟩

end ExprKind

/-! ## Where expressions end -/

/-- No operator and no suffix follows. -/
structure Closes (s : List Char) : Prop where
  breaks : Breaks s
  blocked : Blocked 0 s
  noSuffix : NoSuffix .nowhere s

theorem Closes.stops {s : List Char} (h : Closes s) {kind : ExprKind}
    (helse : kind.endsWith ExprKind.isElseless = true → Refuses (elsePart .nowhere) s)
    (hvalue : kind.endsWith ExprKind.isBareReturn = true → Refuses (exprAt .nowhere 0) s)
    (hdeclared : kind.endsWith ExprKind.isDeclaration = true → DeclarationEnds s) :
    kind.Stops s where
  breaks := h.breaks
  ends := ⟨fun _ => h.blocked, helse⟩
  value := hvalue
  declared := hdeclared
  blocked := h.blocked
  noSuffix := h.noSuffix

/-- The characters that may follow an expression: those of brackets, lists and the words `else` and
`while`. -/
def followers : List Char := [')', ']', ',', ';', '\x7d', ':', 'e', 'w']

theorem closes_of_head {s : List Char} (hbreaks : Breaks s)
    (hs : ∀ c ∈ (skipBlanks s).head?, c ∈ followers) : Closes s := by
  have hall : ∀ c ∈ followers, "><?.&|=!+-*/%^".toList.contains c = false ∧
      ".([+-".toList.contains c = false := List.all_iff_forall_prop.mp (by decide)
  exact ⟨hbreaks, blocked_of_head 0 fun c hc => (hall c (hs c hc)).1,
    noSuffix_of_head fun c hc => (hall c (hs c hc)).2⟩

def closers : List Char := [')', ']', ',', ';', '\x7d', ':']

theorem refuses_value {c : Char} {s t : List Char} (ht : skipBlanks t = c :: s)
    (hc : c ∈ closers) : Refuses (exprAt .nowhere 0) t := by
  have hall : ∀ c ∈ closers, (marks.contains c = false ∧ c ≠ '"' ∧ c ≠ '\'') ∧
      startsBlank c = false ∧ Text.startsName c = false := List.all_iff_forall_prop.mp (by decide)
  obtain ⟨hmark, hblank, hname⟩ := hall c hc
  have hskip := skipBlanks_cons s hblank
  have hhead : ∀ d ∈ (skipBlanks (c :: s)).head?, Text.startsName d = false := by
    rw [hskip]
    rintro d hd
    cases hd
    exact hname
  refine refuses_exprAt 0 ht hskip ?_ (refuses_keywordExpr_mark hhead) (refuses_identifier hhead)
  rintro d hd
  cases hd
  exact hmark

theorem Closes.declarationEnds {s : List Char} (h : Closes s) (htype : TypeEnds s)
    (hs : ∀ c ∈ (skipBlanks s).head?, c ≠ ':' ∧ c ≠ '=' ∧ c ≠ ',') : DeclarationEnds s where
  toTypeEnds := htype
  noHint := refuses_symbol_head (c := ':') (w := []) rfl fun c hc => (hs c hc).1
  noInit := refuses_symbol_head (c := '=') (w := []) rfl fun c hc => (hs c hc).2.1
  noOther := refuses_symbol_head (c := ',') (w := []) rfl fun c hc => (hs c hc).2.2
  blocked := h.blocked

namespace ExprKind

variable (kind : ExprKind)

theorem stops_nil : kind.Stops [] :=
  have hclose : Closes [] := closes_of_head breaks_nil nofun
  hclose.stops (fun _ => refuses_elsePart nofun)
    (fun _ => refuses_exprAt 0 rfl rfl nofun (refuses_keywordExpr_mark nofun)
      (refuses_identifier nofun))
    fun _ => hclose.declarationEnds typeEnds_nil nofun

variable {kind} {c : Char} {s t : List Char}

theorem stops_of_mark (ht : skipBlanks t = c :: s) (hc : c ∈ closers) (hbreaks : Breaks t)
    (helse : c = ';' → kind.endsWith isElseless = true → Refuses (elsePart .nowhere) t)
    (hdeclared : kind.endsWith isDeclaration = true → TypeEnds t ∧ c ≠ ':' ∧ c ≠ ',') :
    kind.Stops t := by
  have hhead {p : Char → Prop} (hp : p c) : ∀ d ∈ (skipBlanks t).head?, p d := by
    rw [ht]
    rintro d hd
    cases hd
    exact hp
  have hall : ∀ c ∈ closers, c ∈ followers ∧ c ≠ 'e' ∧ c ≠ '=' :=
    List.all_iff_forall_prop.mp (by decide)
  obtain ⟨hfollows, helse', hinit⟩ := hall c hc
  have hclose : Closes t := closes_of_head hbreaks (hhead hfollows)
  refine hclose.stops (fun h => ?_) (fun _ => refuses_value ht hc) fun h => ?_
  · by_cases hsemicolon : c = ';'
    · exact helse hsemicolon h
    · exact refuses_elsePart (hhead ⟨hsemicolon, helse'⟩)
  · obtain ⟨htype, hcolon, hcomma⟩ := hdeclared h
    exact hclose.declarationEnds htype (hhead ⟨hcolon, hinit, hcomma⟩)

variable (kind s)

theorem stops_bracket {c : Char} (hc : c = ')' ∨ c = ']') : kind.Stops (c :: s) := by
  rcases hc with rfl | rfl
  all_goals
    refine stops_of_mark (s := s) rfl (by decide) ?_ nofun fun _ => ⟨?_, ?_, ?_⟩
    · exact breaks_mark s (by decide)
    · exact typeEnds_of_mem s (by decide)
    · decide
    · decide

theorem stops_brace : kind.Stops (' ' :: '\x7d' :: s) :=
  stops_of_mark (s := s) rfl (by decide) (typeEnds_brace s).breaks nofun fun _ =>
    ⟨typeEnds_brace s, by decide, by decide⟩

theorem stops_semicolon {s : List Char} (h : Refuses (keyword "else") s) :
    kind.Stops (';' :: s) := by
  have htype : TypeEnds (';' :: s) := typeEnds_of_mem s (by decide)
  refine stops_of_mark (s := s) rfl (by decide) htype.breaks (fun _ _ => ?_) fun _ =>
    ⟨htype, by decide, by decide⟩
  have hsemicolon : optional (symbol ";") (';' :: s) = .done (some ()) s := rfl
  exact Refuses.next hsemicolon h.bind

variable {kind}

theorem stops_comma (h : kind.endsWith isDeclaration = false) : kind.Stops (',' :: s) := by
  refine stops_of_mark (s := s) rfl (by decide) (typeEnds_comma s).breaks nofun fun h' => ?_
  rw [h] at h'
  cases h'

theorem stops_colon (h : kind.endsWith isDeclaration = false) :
    kind.Stops (' ' :: ':' :: ' ' :: s) := by
  refine stops_of_mark (s := ' ' :: s) rfl (by decide) ?_ nofun fun h' => ?_
  · exact breaks_mark _ (by decide)
  · rw [h] at h'
    cases h'

theorem stops_else (h : kind.endsWith isElseless = false) :
    kind.Stops (' ' :: (chars "else" ++ ' ' :: s)) := by
  have hskip : skipBlanks (' ' :: (chars "else" ++ ' ' :: s)) = chars "else" ++ ' ' :: s := rfl
  have hspace : Breaks (' ' :: s) := breaks_mark s (by decide)
  have hname : IsName "else" := isName_of_mem_reserved "else" (by decide)
  have hhead {p : Char → Prop} (hp : p 'e') :
      ∀ d ∈ (skipBlanks (' ' :: (chars "else" ++ ' ' :: s))).head?, p d := by
    rintro d hd
    cases hd
    exact hp
  have hclose : Closes (' ' :: (chars "else" ++ ' ' :: s)) :=
    closes_of_head (breaks_mark _ (by decide)) (hhead (by decide))
  refine hclose.stops (fun h' => ?_) (fun _ => ?_) fun _ => ?_
  · rw [h] at h'
    cases h'
  · refine refuses_exprAt 0 hskip rfl ?_ (refuses_keywordExpr_word hname hspace (by decide)) ?_
    · rintro d hd
      cases hd
      decide
    · have hread : name (skipBlanks (chars "else" ++ ' ' :: s)) = .done "else" (' ' :: s) :=
        name_append hname hspace
      exact ⟨_, (identifier_of_name hread).trans (if_pos (by decide))⟩
  · refine hclose.declarationEnds (typeEnds_space rfl ?_ ⟨_, rfl⟩) (hhead (by decide))
    rintro d hd
    cases hd
    decide

theorem stops_while (h : kind.endsWith isBareReturn = false) :
    kind.Stops (' ' :: (chars "while" ++ ' ' :: s)) := by
  have hhead {p : Char → Prop} (hp : p 'w') :
      ∀ d ∈ (skipBlanks (' ' :: (chars "while" ++ ' ' :: s))).head?, p d := by
    rintro d hd
    cases hd
    exact hp
  have hclose : Closes (' ' :: (chars "while" ++ ' ' :: s)) :=
    closes_of_head (breaks_mark _ (by decide)) (hhead (by decide))
  refine hclose.stops (fun _ => refuses_elsePart (hhead (by decide))) (fun h' => ?_) fun _ => ?_
  · rw [h] at h'
    cases h'
  · refine hclose.declarationEnds (typeEnds_space rfl ?_ ⟨_, rfl⟩) (hhead (by decide))
    rintro d hd
    cases hd
    decide

theorem fits_of_closed (hs : Breaks s) (hgreedy : kind.endsWith isGreedy = false)
    (hreturn : kind.endsWith isBareReturn = false)
    (hdeclared : kind.endsWith isDeclaration = false) : kind.Fits s := by
  refine ⟨hs, ⟨?_, ?_⟩, ?_, ?_⟩
  · rw [hgreedy]
    nofun
  · intro h
    rw [open_of_elseless h] at hgreedy
    cases hgreedy
  · rw [hreturn]
    nofun
  · rw [hdeclared]
    nofun

end ExprKind

end HaxeMacro
