import HaxeMacro.Proofs.Parser.Types

/-! # The parsers of expressions keep step

Production by production, and then for the two that are recursive: with enough steps, they read the
same whatever their number is.
-/

namespace HaxeMacro.Grammar

open Parser Token

theorem keeps_varWord (n : Nat) : Keeps id 1 n varWord varWord :=
  Keeps.or ((keeps_keyword n (by decide)).andThen fun _ => Keeps.pure rfl)
    ((keeps_keyword n (by decide)).andThen fun _ => Keeps.pure rfl)

section

variable {f : Position → Position} {src dst : Source} (hm : Moves f src dst) {n : Nat}
variable {expr expr' : Parser Expr} (he : Keeps (·.relocate f) 1 n expr expr')
variable {tight tight' : Parser Expr} (ht : Keeps (·.relocate f) 1 n tight tight')

/-! ## Lists of expressions -/

section
include he

theorem keeps_argumentsTail :
    Keeps (List.map (·.relocate f)) 1 n (argumentsTail expr) (argumentsTail expr') := by
  refine (he.sepBy (eats_symbol (by decide))).skip fun args => ?_
  exact (keeps_symbol n (by decide)).andThen fun _ => Keeps.pure rfl

theorem keeps_arguments :
    Keeps (List.map (·.relocate f)) 1 (n + 1) (arguments expr) (arguments expr') :=
  (keeps_symbol _ (by decide)).eat fun _ => (keeps_argumentsTail he).weaken

include hm in
theorem keeps_metadata :
    Keeps (·.relocate f) 1 (n + 1) (metadata src expr) (metadata dst expr') := by
  refine (eats_blanks.keeps _).skip fun _ => ?_
  refine Keeps.here.skip fun start => ?_
  refine (keeps_text _ (by decide)).eat fun _ => ?_
  refine (keeps_text n (by decide)).present.andThen fun colon => ?_
  refine (eats_name.keeps n).weaken.andThen fun word => ?_
  have hargs : Keeps (List.map (·.relocate f)) 1 n (do text "("; argumentsTail expr)
      (do text "("; argumentsTail expr') :=
    (keeps_text n (by decide)).andThen fun _ => (keeps_argumentsTail he).weaken
  refine hargs.optional.andThen fun args => ?_
  refine Keeps.here.andThen fun stop => ?_
  refine Keeps.pure ?_
  simp only [id, hm.span, Metadata.relocate, relocateExprs_eq_map]
  cases args <;> rfl

/-! ## Expressions that start with a keyword -/

include hm in
theorem keeps_varDecl (isFinal isStatic : Bool) :
    Keeps (·.relocate f) 1 (n + 1) (varDecl src expr isFinal isStatic)
      (varDecl dst expr' isFinal isStatic) := by
  refine (eats_identifier.keeps _).eat fun name => ?_
  refine (keeps_typeHint (keeps_complexType hm)).inner.optional.andThen fun type => ?_
  have hinit : Keeps (·.relocate f) 1 n
      (do symbol "="; lacks (char fun c => c == '=' || c == '>'); expr)
      (do symbol "="; lacks (char fun c => c == '=' || c == '>'); expr') := by
    refine (keeps_symbol n (by decide)).andThen fun _ => ?_
    exact ((eats_char _).keeps n).lacks.andThen fun _ => he.weaken
  refine hinit.optional.andThen fun init => ?_
  refine Keeps.pure ?_
  rw [Var.relocate, relocateOptionType_eq_map, relocateOption_eq_map]
  rfl

include hm in
theorem keeps_varExpr : Keeps (·.relocate f) 1 (n + 1) (varExpr src expr) (varExpr dst expr') := by
  refine (keeps_keyword _ (by decide)).present.skip fun isStatic => ?_
  refine (keeps_varWord _).eat fun isFinal => ?_
  have hdecl := (keeps_varDecl hm he isFinal isStatic).mono (Nat.le_refl 1) (Nat.le_succ n)
  refine (hdecl.sepBy1 (eats_symbol (by decide))).weaken.andThen fun vars => ?_
  refine Keeps.pure ?_
  rw [ExprKind.relocate, relocateVars_eq_map]

include hm in
theorem keeps_param : Keeps (·.relocate f) 1 (n + 1) (param src expr) (param dst expr') := by
  refine (keeps_symbol _ (by decide)).present.skip fun mark => ?_
  refine (eats_identifier.keeps _).eat fun name => ?_
  refine (keeps_typeHint (keeps_complexType hm)).inner.optional.andThen fun type => ?_
  have hdefault : Keeps (·.relocate f) 1 n (do symbol "="; expr) (do symbol "="; expr') :=
    (keeps_symbol n (by decide)).andThen fun _ => he.weaken
  refine hdefault.optional.andThen fun default => ?_
  refine Keeps.pure ?_
  rw [Param.relocate, relocateOptionType_eq_map, relocateOption_eq_map]
  rfl

include hm in
theorem keeps_functionExpr :
    Keeps (·.relocate f) 1 (n + 1) (functionExpr src expr) (functionExpr dst expr') := by
  refine (keeps_keyword _ (by decide)).eat fun _ => ?_
  refine (eats_identifier.keeps n).optional.andThen fun name => ?_
  refine (keeps_symbol n (by decide)).weaken.andThen fun _ => ?_
  have hparam := (keeps_param hm he).mono (Nat.le_refl 1) (Nat.le_succ n)
  refine (hparam.sepBy (eats_symbol (by decide))).andThen fun params => ?_
  refine (keeps_symbol n (by decide)).weaken.andThen fun _ => ?_
  refine (keeps_typeHint (keeps_complexType hm)).inner.optional.andThen fun ret => ?_
  refine he.weaken.andThen fun body => ?_
  refine Keeps.pure ?_
  rw [ExprKind.relocate, FunctionDef.relocate, relocateParams_eq_map, relocateOptionType_eq_map,
    relocateOption_eq_map]
  cases name <;> rfl

theorem keeps_condition : Keeps (·.relocate f) 1 (n + 1) (condition expr) (condition expr') := by
  refine (keeps_symbol _ (by decide)).eat fun _ => ?_
  refine he.weaken.andThen fun e => ?_
  exact (keeps_symbol n (by decide)).weaken.andThen fun _ => Keeps.pure rfl

theorem keeps_ifExpr : Keeps (·.relocate f) 1 (n + 1) (ifExpr expr) (ifExpr expr') := by
  refine (keeps_keyword _ (by decide)).eat fun _ => ?_
  refine (keeps_condition he).inner.andThen fun test => ?_
  refine he.weaken.andThen fun yes => ?_
  have hno : Keeps (·.relocate f) 1 n
      (do let _ ← optional (symbol ";"); keyword "else"; expr)
      (do let _ ← optional (symbol ";"); keyword "else"; expr') := by
    refine (keeps_symbol n (by decide)).optional.skip fun _ => ?_
    exact (keeps_keyword n (by decide)).andThen fun _ => he.weaken
  refine hno.optional.andThen fun no => ?_
  refine Keeps.pure ?_
  rw [ExprKind.relocate, relocateOption_eq_map]

theorem keeps_whileExpr : Keeps (·.relocate f) 1 (n + 1) (whileExpr expr) (whileExpr expr') := by
  refine (keeps_keyword _ (by decide)).eat fun _ => ?_
  refine (keeps_condition he).inner.andThen fun test => ?_
  exact he.weaken.andThen fun body => Keeps.pure rfl

theorem keeps_doWhileExpr :
    Keeps (·.relocate f) 1 (n + 1) (doWhileExpr expr) (doWhileExpr expr') := by
  refine (keeps_keyword _ (by decide)).eat fun _ => ?_
  refine he.weaken.andThen fun body => ?_
  refine (keeps_symbol n (by decide)).optional.andThen fun _ => ?_
  refine (keeps_keyword n (by decide)).weaken.andThen fun _ => ?_
  exact (keeps_condition he).inner.andThen fun test => Keeps.pure rfl

include hm in
theorem keeps_forExpr : Keeps (·.relocate f) 1 (n + 1) (forExpr src expr) (forExpr dst expr') := by
  refine (keeps_keyword _ (by decide)).eat fun _ => ?_
  refine (keeps_symbol n (by decide)).weaken.andThen fun _ => ?_
  refine (eats_blanks.keeps n).andThen fun _ => ?_
  refine Keeps.here.andThen fun start => ?_
  refine (eats_identifier.keeps n).weaken.andThen fun name => ?_
  refine Keeps.here.andThen fun stop => ?_
  refine (keeps_keyword n (by decide)).weaken.andThen fun _ => ?_
  refine he.weaken.andThen fun range => ?_
  refine (keeps_symbol n (by decide)).weaken.andThen fun _ => ?_
  refine he.weaken.andThen fun body => ?_
  refine Keeps.pure ?_
  simp only [id, hm.span, Expr.relocate_pos, Expr.ident, ← hm.union]
  rfl

include hm in
theorem keeps_newExpr : Keeps (·.relocate f) 1 (n + 1) (newExpr src expr) (newExpr dst expr') := by
  refine (keeps_keyword _ (by decide)).eat fun _ => ?_
  refine (eats_blanks.keeps n).andThen fun _ => ?_
  refine (keeps_typePath (keeps_complexType hm)).inner.andThen fun path => ?_
  refine (keeps_arguments he).inner.andThen fun args => ?_
  refine Keeps.pure ?_
  rw [ExprKind.relocate, relocateExprs_eq_map]

include hm ht in
theorem keeps_castExpr :
    Keeps (·.relocate f) 1 (n + 1) (castExpr src expr tight) (castExpr dst expr' tight') := by
  refine (keeps_keyword _ (by decide)).eat fun _ => ?_
  refine Keeps.andThen (k := 0) (f := Option.map (·.relocate f)) ?_ fun checked => ?_
  · refine Keeps.optional (k := 1) ?_
    refine (keeps_symbol n (by decide)).andThen fun _ => ?_
    refine he.weaken.andThen fun e => ?_
    refine (keeps_symbol n (by decide)).weaken.andThen fun _ => ?_
    refine (eats_blanks.keeps n).andThen fun _ => ?_
    refine (keeps_complexType hm).weaken.andThen fun t => ?_
    exact (keeps_symbol n (by decide)).weaken.andThen fun _ => Keeps.pure rfl
  · cases checked with
    | some kind => exact Keeps.pure rfl
    | none => exact ht.weaken.andThen fun e => Keeps.pure rfl

include hm ht in
theorem keeps_keywordExpr :
    Keeps (·.relocate f) 1 (n + 1) (keywordExpr src expr tight) (keywordExpr dst expr' tight') := by
  refine (keeps_varExpr hm he).or <| (keeps_functionExpr hm he).or <| (keeps_ifExpr he).or <|
    (keeps_whileExpr he).or <| (keeps_doWhileExpr he).or <| (keeps_forExpr hm he).or <|
    (keeps_newExpr hm he).or <| (keeps_castExpr hm he ht).or <|
    Keeps.or ?_ <| Keeps.or ?_ <| Keeps.or ?_ <| Keeps.or ?_ ?_
  · refine (keeps_keyword _ (by decide)).eat fun _ => ?_
    refine he.optional.andThen fun value => ?_
    refine Keeps.pure ?_
    rw [ExprKind.relocate, relocateOption_eq_map]
  · exact (keeps_keyword _ (by decide)).eat fun _ => he.weaken.andThen fun e => Keeps.pure rfl
  · exact (keeps_keyword _ (by decide)).eat fun _ => he.weaken.andThen fun e => Keeps.pure rfl
  · exact (keeps_keyword _ (by decide)).eat fun _ => Keeps.pure rfl
  · exact (keeps_keyword _ (by decide)).eat fun _ => Keeps.pure rfl

/-! ## Other primary expressions -/

include hm in
theorem keeps_metaExpr :
    Keeps (·.relocate f) 1 (n + 1) (metaExpr src expr) (metaExpr dst expr') := by
  refine (keeps_metadata hm he).bind (l := 0) fun entry => ?_
  exact he.weaken.andThen fun inner => Keeps.pure rfl

include hm in
theorem keeps_parenExpr :
    Keeps (·.relocate f) 1 (n + 1) (parenExpr src expr) (parenExpr dst expr') := by
  refine (keeps_symbol _ (by decide)).eat fun _ => ?_
  refine he.weaken.andThen fun inner => ?_
  refine (keeps_typeHint (keeps_complexType hm)).inner.optional.andThen fun type => ?_
  refine (keeps_symbol n (by decide)).weaken.andThen fun _ => ?_
  refine Keeps.pure ?_
  cases type <;> rfl

theorem keeps_arrayExpr : Keeps (·.relocate f) 1 (n + 1) (arrayExpr expr) (arrayExpr expr') := by
  refine (keeps_symbol _ (by decide)).eat fun _ => ?_
  refine (he.sepBy (eats_symbol (by decide))).andThen fun items => ?_
  refine (keeps_symbol n (by decide)).optional.andThen fun _ => ?_
  refine (keeps_symbol n (by decide)).weaken.andThen fun _ => ?_
  refine Keeps.pure ?_
  rw [ExprKind.relocate, relocateExprs_eq_map]

theorem keeps_objectField :
    Keeps (·.relocate f) 1 (n + 1) (objectField expr) (objectField expr') := by
  refine (eats_blanks.keeps _).skip fun _ => ?_
  have hname : Eats 1 (or (do return (← anyIdentifier, false))
      (do return ((← stringLiteral).1, true))) := by
    refine Keeps.eats fun n => ?_
    refine Keeps.or ?_ ?_
    · exact (eats_anyIdentifier.keeps n).andThen fun _ => Keeps.pure rfl
    · exact (eats_stringLiteral.keeps n).andThen fun _ => Keeps.pure rfl
  refine (hname.keeps _).eat fun name => ?_
  refine (keeps_symbol n (by decide)).weaken.andThen fun _ => ?_
  exact he.weaken.andThen fun value => Keeps.pure rfl

theorem keeps_objectTail : Keeps (·.relocate f) 1 n (objectTail expr) (objectTail expr') := by
  have hfield := (keeps_objectField he).mono (Nat.le_refl 1) (Nat.le_succ n)
  refine (hfield.sepBy1 (eats_symbol (by decide))).andThen fun fields => ?_
  refine (keeps_symbol n (by decide)).optional.andThen fun _ => ?_
  refine (keeps_symbol n (by decide)).weaken.andThen fun _ => ?_
  refine Keeps.pure ?_
  rw [ExprKind.relocate, relocateObjectFields_eq_map]

theorem keeps_statement :
    Keeps (Option.map (·.relocate f)) 1 n (statement expr) (statement expr') := by
  refine Keeps.or ?_ ?_
  · refine he.andThen fun e => ?_
    exact (keeps_symbol n (by decide)).optional.andThen fun _ => Keeps.pure rfl
  · exact (keeps_symbol n (by decide)).andThen fun _ => Keeps.pure rfl

theorem keeps_blockTail : Keeps (·.relocate f) 0 n (blockTail expr) (blockTail expr') := by
  refine (keeps_statement he).many.andThen fun statements => ?_
  refine (keeps_symbol n (by decide)).weaken.andThen fun _ => ?_
  refine Keeps.pure ?_
  rw [ExprKind.relocate, relocateExprs_eq_map, List.map_filterMap, List.filterMap_map]
  rfl

theorem keeps_braces : Keeps (·.relocate f) 1 (n + 1) (braces expr) (braces expr') :=
  (keeps_symbol _ (by decide)).eat fun _ => (keeps_objectTail he).weaken.or (keeps_blockTail he)

omit he in
theorem keeps_constant : Keeps (·.relocate f) 1 n constant constant := by
  refine Keeps.or ?_ <| Keeps.or ?_ <| Keeps.or ?_ ?_
  · exact (eats_number.keeps n).andThen fun _ => Keeps.pure rfl
  · exact (eats_stringLiteral.keeps n).andThen fun _ => Keeps.pure rfl
  · exact (eats_regexpLiteral.keeps n).andThen fun _ => Keeps.pure rfl
  · exact (eats_identifier.keeps n).andThen fun _ => Keeps.pure rfl

include hm ht in
theorem keeps_primary :
    Keeps (·.relocate f) 1 (n + 1) (primary src expr tight) (primary dst expr' tight') := by
  refine (eats_blanks.keeps _).skip fun _ => ?_
  refine Keeps.here.skip fun start => ?_
  have hkind := (keeps_keywordExpr hm he ht).or <| (keeps_metaExpr hm he).or <|
    (keeps_parenExpr hm he).or <| (keeps_arrayExpr he).or <| (keeps_braces he).or keeps_constant
  refine Keeps.andThen (f := (·.relocate f)) hkind fun kind => ?_
  refine Keeps.here.andThen fun stop => ?_
  refine Keeps.pure ?_
  simp only [id, hm.span]
  rfl

/-! ## Operators -/

theorem keeps_suffix (e : Expr) :
    Keeps (·.relocate f) 1 (n + 1) (suffix expr e) (suffix expr' (e.relocate f)) := by
  refine Keeps.or ?_ <| Keeps.or ?_ <| Keeps.or ?_ ?_
  · refine (keeps_symbol _ (by decide)).eat fun _ => ?_
    exact (eats_anyIdentifier.keeps n).weaken.andThen fun name => Keeps.pure rfl
  · refine (keeps_arguments he).andThen fun args => ?_
    refine Keeps.pure ?_
    rw [ExprKind.relocate, relocateExprs_eq_map]
  · refine (keeps_symbol _ (by decide)).eat fun _ => ?_
    refine he.weaken.andThen fun i => ?_
    exact (keeps_symbol n (by decide)).weaken.andThen fun _ => Keeps.pure rfl
  · exact (eats_trailingOp.keeps _).andThen fun _ => Keeps.pure rfl

include hm ht in
theorem keeps_postfixed :
    Keeps (·.relocate f) 1 (n + 1) (postfixed src expr tight) (postfixed dst expr' tight') := by
  refine (eats_blanks.keeps _).skip fun _ => ?_
  refine Keeps.here.skip fun start => ?_
  refine (keeps_primary hm he ht).andThen fun first => ?_
  refine Keeps.grow ?_ ?_ first
  · intro e
    refine (keeps_suffix he e).optional.andThen fun kind => ?_
    cases kind with
    | none => exact Keeps.pure rfl
    | some kind =>
      refine Keeps.here.andThen fun stop => ?_
      refine Keeps.pure ?_
      simp only [id, hm.span]
      rfl
  · -- A suffix that is there is at least one character long.
    intro a b s rest hs hstep
    have hans := (keeps_suffix he a s hs).2
    simp only [bind_apply, Parser.optional] at hstep
    cases hsuffix : suffix expr a s with
    | done kind rest' =>
      rw [hsuffix] at hans hstep
      cases hstep
      exact hans.2
    | refused place =>
      rw [hsuffix] at hstep
      cases hstep
    | exhausted =>
      rw [hsuffix] at hstep
      cases hstep

end

theorem relocate_applyLeading (op : UnaryOp) (e : Expr) :
    (applyLeading op e).relocate f = applyLeading op (e.relocate f) := by
  obtain ⟨kind, pos⟩ := e
  cases op with
  | neg =>
    cases kind with
    | const c => cases c <;> rfl
    | _ => rfl
  | _ => rfl

include hm he ht in
theorem keeps_leading :
    Keeps (·.relocate f) 1 (n + 1) (leading src expr tight) (leading dst expr' tight') := by
  refine (eats_blanks.keeps _).skip fun _ => ?_
  refine Keeps.here.skip fun start => ?_
  refine Keeps.afterOptional eats_leadingOp (fun op => ?_) (keeps_postfixed hm he ht)
  refine ht.weaken.andThen fun e => ?_
  refine Keeps.here.andThen fun stop => ?_
  refine Keeps.pure ?_
  simp only [id, hm.span, Expr.relocate, relocate_applyLeading]

section

variable {binary binary' : Nat → Parser Expr}
  (hb : ∀ least, Keeps (·.relocate f) 1 n (binary least) (binary' least))
include hm hb

theorem keeps_ternaryTail (test : Expr) :
    Keeps (·.relocate f) 1 n (ternaryTail binary test)
      (ternaryTail binary' (test.relocate f)) := by
  refine (hb 0).andThen fun yes => ?_
  refine (keeps_symbol n (by decide)).weaken.andThen fun _ => ?_
  refine (hb ternaryLevel).weaken.andThen fun no => ?_
  refine Keeps.pure ?_
  simp only [Expr.relocate_pos, ← hm.union]
  rfl

theorem keeps_operatorTail (least : Nat) (left : Expr) :
    Keeps (Option.map (·.relocate f)) 0 n (operatorTail binary least left)
      (operatorTail binary' least (left.relocate f)) := by
  refine (eats_binaryOp.keeps n).optional.andThen fun op => ?_
  cases op with
  | none => exact Keeps.pure rfl
  | some op =>
    simp only [Option.map, id]
    split
    · exact Keeps.pure rfl
    · refine (hb (rightLevel op)).weaken.andThen fun right => ?_
      refine Keeps.pure ?_
      simp only [Expr.relocate_pos, ← hm.union]
      rfl

theorem keeps_binaryStep (least : Nat) (left : Expr) :
    Keeps (Option.map (·.relocate f)) 0 n (binaryStep binary least left)
      (binaryStep binary' least (left.relocate f)) := by
  have hrest : ∀ asks : Bool, Keeps (Option.map (·.relocate f)) 0 n
      (if asks then do return some (← ternaryTail binary left) else operatorTail binary least left)
      (if asks then do return some (← ternaryTail binary' (left.relocate f))
        else operatorTail binary' least (left.relocate f)) := by
    intro asks
    cases asks with
    | true => exact (keeps_ternaryTail hm hb left).weaken.andThen fun e => Keeps.pure rfl
    | false => exact keeps_operatorTail hm hb least left
  unfold binaryStep
  split
  · exact (eats_ternaryMark.keeps n).present.andThen hrest
  · exact Keeps.andThen (f := id) (Keeps.pure rfl) hrest

/-- A step that adds something reads at least one character. -/
theorem shrinks_binaryStep {least : Nat} {left e : Expr} {s rest : List Char} (hs : s.length < n)
    (hstep : binaryStep binary least left s = .done (some e) rest) : rest.length < s.length := by
  have hoperator : ∀ rest, operatorTail binary least left s = .done (some e) rest →
      rest.length < s.length := by
    intro rest h
    obtain ⟨op?, middle, hoptional, h⟩ := bind_eq_done h
    rcases optional_eq_done hoptional with ⟨op, rfl, hop⟩ | ⟨rfl, -⟩
    · have hmiddle := eats_binaryOp.length hop
      simp only at h
      split at h
      · cases h
      · obtain ⟨right, rest', hright, h⟩ := bind_eq_done h
        cases h
        have hrest := (hb _).length (by omega) hright
        omega
    · cases h
  unfold binaryStep at hstep
  split at hstep
  · obtain ⟨asks, middle, hasks, hrest⟩ := bind_eq_done hstep
    rcases present_eq_done hasks with ⟨rfl, _, hmark⟩ | ⟨rfl, hmiddle, -⟩
    · have hmiddle := eats_ternaryMark.length hmark
      obtain ⟨e', rest', htail, hrest⟩ := bind_eq_done hrest
      cases hrest
      have hrest := (keeps_ternaryTail hm hb left).length (by omega) htail
      omega
    · subst hmiddle
      exact hoperator rest hrest
  · exact hoperator rest hstep

theorem keeps_climb {first first' : Parser Expr}
    (hfirst : Keeps (·.relocate f) 1 (n + 1) first first') (least : Nat) :
    Keeps (·.relocate f) 1 (n + 1) (climb first binary least) (climb first' binary' least) :=
  hfirst.eat fun e => Keeps.grow (keeps_binaryStep hm hb least)
    (fun _ _ _ _ hs h => shrinks_binaryStep hm hb hs h) e

end

include hm in
/-- The two recursive parsers, with enough steps for texts of fewer than `n` characters. -/
theorem keeps_operand_binary (n : Nat) :
    (∀ steps steps', 2 * n ≤ steps + 1 → 2 * n ≤ steps' + 1 →
      Keeps (·.relocate f) 1 n (operand src steps) (operand dst steps')) ∧
    (∀ steps steps', 2 * n ≤ steps → 2 * n ≤ steps' → ∀ least,
      Keeps (·.relocate f) 1 n (binary src steps least) (binary dst steps' least)) := by
  induction n with
  | zero =>
    refine ⟨?_, ?_⟩
    · intro _ _ _ _ s hs
      omega
    · intro _ _ _ _ _ s hs
      omega
  | succ n ih =>
    obtain ⟨ihoperand, ihbinary⟩ := ih
    have hoperand : ∀ steps steps', 2 * (n + 1) ≤ steps + 1 → 2 * (n + 1) ≤ steps' + 1 →
        Keeps (·.relocate f) 1 (n + 1) (operand src steps) (operand dst steps') := by
      intro steps steps' hn hn'
      obtain ⟨m, rfl⟩ : ∃ m, steps = m + 1 := ⟨steps - 1, by omega⟩
      obtain ⟨m', rfl⟩ : ∃ m', steps' = m' + 1 := ⟨steps' - 1, by omega⟩
      exact keeps_leading hm (ihbinary m m' (by omega) (by omega) 0)
        (ihoperand m m' (by omega) (by omega))
    refine ⟨hoperand, ?_⟩
    intro steps steps' hn hn' least
    obtain ⟨m, rfl⟩ : ∃ m, steps = m + 1 := ⟨steps - 1, by omega⟩
    obtain ⟨m', rfl⟩ : ∃ m', steps' = m' + 1 := ⟨steps' - 1, by omega⟩
    exact keeps_climb hm (ihbinary m m' (by omega) (by omega)) (hoperand m m' (by omega) (by omega))
      least

end

/-! ## Without steps -/

/-- An expression with binary operators of level `least` or higher. -/
def exprAt (src : Source) (least : Nat) : Parser Expr := fun s => binary src (stepsFor s) least s

/-- An expression with its leading operators. -/
def tightExpr (src : Source) : Parser Expr := fun s => operand src (stepsFor s) s

theorem expression_eq (src : Source) : expression src = exprAt src 0 := rfl

section

variable {f : Position → Position} {src dst : Source} (hm : Moves f src dst) {n : Nat}
include hm

theorem keeps_exprAt (least : Nat) :
    Keeps (·.relocate f) 1 n (exprAt src least) (exprAt dst least) := by
  intro s hs
  exact (keeps_operand_binary hm (s.length + 1)).2 _ _ (by simp [stepsFor]; omega)
    (by simp [stepsFor]; omega) least s (Nat.lt_succ_self _)

theorem keeps_tightExpr : Keeps (·.relocate f) 1 n (tightExpr src) (tightExpr dst) := by
  intro s hs
  exact (keeps_operand_binary hm (s.length + 1)).1 _ _ (by simp [stepsFor]; omega)
    (by simp [stepsFor]; omega) s (Nat.lt_succ_self _)

theorem keeps_metadataEntry :
    Keeps (·.relocate f) 1 n (metadataEntry src) (metadataEntry dst) := by
  intro s hs
  have hsteps : 2 * s.length ≤ stepsFor s := Nat.le_add_right _ 2
  have hexpr := (keeps_operand_binary hm s.length).2 _ _ hsteps hsteps 0
  exact keeps_metadata hm hexpr s (Nat.lt_succ_self _)

end

section

variable (src : Source)

theorem relocate_id_eq : (fun e : Expr => e.relocate id) = id := by
  funext e
  exact e.relocate_id

/-- More steps than needed change nothing. -/
theorem keeps_binary_exprAt {n steps : Nat} (hsteps : 2 * n ≤ steps) (least : Nat) :
    Keeps id 1 n (binary src steps least) (exprAt src least) := by
  intro s hs
  have h := (keeps_operand_binary (moves_id src) (s.length + 1)).2 steps (stepsFor s)
    (by omega) (by simp [stepsFor]; omega) least s (Nat.lt_succ_self _)
  rwa [relocate_id_eq] at h

theorem keeps_operand_tightExpr {n steps : Nat} (hsteps : 2 * n ≤ steps + 1) :
    Keeps id 1 n (operand src steps) (tightExpr src) := by
  intro s hs
  have h := (keeps_operand_binary (moves_id src) (s.length + 1)).1 steps (stepsFor s)
    (by omega) (by simp [stepsFor]; omega) s (Nat.lt_succ_self _)
  rwa [relocate_id_eq] at h

theorem tightExpr_eq : tightExpr src = leading src (exprAt src 0) (tightExpr src) := by
  funext s
  have hexpr : Keeps id 1 s.length (binary src (2 * s.length + 1) 0) (exprAt src 0) :=
    keeps_binary_exprAt src (by omega) 0
  have htight : Keeps id 1 s.length (operand src (2 * s.length + 1)) (tightExpr src) :=
    keeps_operand_tightExpr src (by omega)
  rw [← relocate_id_eq] at hexpr htight
  have h := (keeps_leading (moves_id src) hexpr htight s (Nat.lt_succ_self _)).1
  rw [relocate_id_eq, Reply.map_id] at h
  exact h.symm

theorem exprAt_eq (least : Nat) :
    exprAt src least = climb (tightExpr src) (exprAt src) least := by
  funext s
  have hexpr : ∀ least, Keeps id 1 s.length (binary src (2 * s.length + 1) least)
      (exprAt src least) := keeps_binary_exprAt src (by omega)
  have htight : Keeps id 1 (s.length + 1) (operand src (2 * s.length + 1)) (tightExpr src) :=
    keeps_operand_tightExpr src (by omega)
  rw [← relocate_id_eq] at htight
  simp only [← relocate_id_eq] at hexpr
  have h := (keeps_climb (moves_id src) hexpr htight least s (Nat.lt_succ_self _)).1
  rw [relocate_id_eq, Reply.map_id] at h
  exact h.symm

end

end HaxeMacro.Grammar
