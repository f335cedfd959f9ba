import HaxeMacro.Proofs.Parser.Operands

/-! # String literals read back

Between double quotes every text is read back from what the printer writes. Between single quotes
the printer escapes the quote only, so that a backslash of the text takes the next character with
it: such a text is read back exactly if it has no backslash.
-/

namespace HaxeMacro

open Token

/-! ## Single quotes -/

namespace Token

theorem closeString_quote (quote : Char) (s : List Char) :
    closeString quote (quote :: s) = some ([], s) := by
  rw [closeString.eq_def]
  exact if_pos rfl

theorem closeString_escapeSingle {c : Char} (hc : c ≠ '\\') (s : List Char) :
    closeString '\'' (escapeSingle c ++ s) =
      (closeString '\'' s).map fun (cs, rest) => (c :: cs, rest) := by
  unfold escapeSingle
  split
  · simp [closeString, unescape]
  · rename_i hquote
    rw [List.singleton_append, closeString.eq_def]
    simp only [if_neg hquote, if_neg hc]

theorem closeString_escapeSingle_all {cs : List Char} (hcs : '\\' ∉ cs) (t : List Char) :
    closeString '\'' (cs.flatMap escapeSingle ++ '\'' :: t) = some (cs, t) := by
  induction cs with
  | nil =>
    exact closeString_quote _ t
  | cons c cs ih =>
    obtain ⟨hc, hcs⟩ := not_or.mp (mt List.mem_cons.mpr hcs)
    rw [List.flatMap_cons, List.append_assoc, closeString_escapeSingle (Ne.symm hc), ih hcs]
    rfl

theorem escapeSingle_eq {c : Char} (hc : c ≠ '\'') : escapeSingle c = [c] := by
  unfold escapeSingle
  split
  · exact absurd rfl hc
  · rfl

/-- Escapes of single quotes only never give more characters than were written, and fewer of them
where there is a backslash. -/
theorem length_closeString_escapeSingle (cs : List Char) {read rest : List Char}
    (h : closeString '\'' (cs.flatMap escapeSingle ++ ['\'']) = some (read, rest)) :
    read.length ≤ cs.length ∧ ('\\' ∈ cs → read.length < cs.length) := by
  match cs with
  | [] =>
    cases (closeString_escapeSingle_all List.not_mem_nil []).symm.trans h
    exact ⟨Nat.le_refl _, fun hmem => absurd hmem List.not_mem_nil⟩
  | c :: cs =>
    rw [List.flatMap_cons, List.append_assoc] at h
    by_cases hc : c = '\\'
    · subst hc
      match cs with
      | [] => cases h
      | d :: cs =>
        rw [List.flatMap_cons, List.append_assoc] at h
        by_cases hd : d = '\''
        · -- The backslash of the escaped quote is taken, and the quote closes the literal.
          subst hd
          have hclose :
              closeString '\'' ('\\' :: '\\' :: '\'' :: (cs.flatMap escapeSingle ++ ['\''])) =
                some (['\\'], cs.flatMap escapeSingle ++ ['\'']) := by
            rw [closeString, if_neg (by decide), if_pos rfl, closeString_quote]
            rfl
          cases hclose.symm.trans h
          simp
        · rw [escapeSingle_eq hd] at h
          obtain ⟨⟨read', rest'⟩, hclose, heq⟩ := Option.map_eq_some_iff.mp h
          cases heq
          -- The backslash takes the character after it, so two characters are read as one.
          have hle := (length_closeString_escapeSingle cs hclose).1
          simp only [List.length_cons]
          omega
    · rw [closeString_escapeSingle hc] at h
      obtain ⟨⟨read', rest'⟩, hclose, heq⟩ := Option.map_eq_some_iff.mp h
      cases heq
      obtain ⟨hle, hlt⟩ := length_closeString_escapeSingle cs hclose
      simp only [List.length_cons, List.mem_cons]
      refine ⟨by omega, ?_⟩
      rintro (rfl | hmem)
      · exact absurd rfl hc
      · have := hlt hmem
        omega

/-! ## Both quotes -/

theorem stringLiteral_print {s : String} {q : Quotes} (h : q = .single → '\\' ∉ s.toList) :
    stringLiteral (Constant.string s q).print = .done (s, q) [] := by
  cases q with
  | double =>
    have hread := stringLiteral_append s []
    rwa [List.append_nil] at hread
  | single =>
    have hclose := closeString_escapeSingle_all (h rfl) []
    have hprint : (Constant.string s .single).print =
        '\'' :: (s.toList.flatMap escapeSingle ++ ['\'']) := rfl
    rw [hprint, stringLiteral, stringFrom, hclose]
    simp only [String.ofList_toList]

theorem not_mem_of_stringLiteral_print {s : String} {q : Quotes} {rest : List Char}
    (h : stringLiteral (Constant.string s q).print = .done (s, q) rest) (hq : q = .single) :
    '\\' ∉ s.toList := by
  subst hq
  have hprint : (Constant.string s .single).print =
      '\'' :: (s.toList.flatMap escapeSingle ++ ['\'']) := rfl
  rw [hprint, stringLiteral] at h
  unfold stringFrom at h
  split at h
  · rename_i read rest' hclose
    have hread : String.ofList read = s := by
      cases h
      rfl
    rw [← hread, String.toList_ofList] at hclose ⊢
    intro hmem
    exact absurd ((length_closeString_escapeSingle read hclose).2 hmem) (Nat.lt_irrefl _)
  · cases h

end Token

/-- What the printer writes of a string literal is read back as that literal, unless the literal
stands between single quotes and has a backslash in it. -/
theorem Constant.parse_string_iff (s : String) (q : Quotes) (pos : Position) :
    (∃ place, Expr.parse (Constant.text (.string s q)) pos =
      .ok ⟨.const (.string s q), place⟩) ↔ (q = .single → '\\' ∉ s.toList) := by
  obtain ⟨c, cs, hprint, hc⟩ : ∃ c cs, (Constant.string s q).print = c :: cs ∧
      (c = '"' ∨ c = '\'') := by
    cases q with
    | double => exact ⟨_, _, rfl, Or.inl rfl⟩
    | single => exact ⟨_, _, rfl, Or.inr rfl⟩
  have htext : (Constant.text (.string s q)).toList = c :: cs := by
    rw [Constant.text, String.toList_ofList, hprint]
  simp only [Expr.parse_eq_const_iff, htext]
  constructor
  · rintro ⟨place, -, rest, hread, -⟩
    obtain ⟨w, q', heq, hliteral⟩ := Grammar.string_of_tightExpr hc hread
    cases heq
    rw [← hprint] at hliteral
    exact not_mem_of_stringLiteral_print hliteral
  · intro h
    have hliteral := stringLiteral_print h
    rw [hprint] at hliteral
    refine ⟨_, ?_, [], Grammar.tightExpr_quote hc hliteral, Grammar.blocked_nil 0, rfl⟩
    rcases hc with rfl | rfl <;> rfl

/-- A backslash and `n` between single quotes come back as a line end. -/
theorem Constant.parse_single_backslash :
    Expr.parse (Constant.text (.string "\\n" .single)) ⟨0, 0, 0⟩ =
      .ok ⟨.const (.string "\n" .single), ⟨0, 0, 4⟩⟩ ∧
    ¬∃ place, Expr.parse (Constant.text (.string "\\n" .single)) ⟨0, 0, 0⟩ =
      .ok ⟨.const (.string "\\n" .single), place⟩ := by
  have hread : Expr.parse (Constant.text (.string "\\n" .single)) ⟨0, 0, 0⟩ =
      .ok ⟨.const (.string "\n" .single), ⟨0, 0, 4⟩⟩ := rfl
  refine ⟨hread, ?_⟩
  rintro ⟨place, h⟩
  simp only [hread, Except.ok.injEq, Expr.mk.injEq, ExprKind.const.injEq,
    Constant.string.injEq] at h
  exact absurd h.1.1 (by decide)

end HaxeMacro
