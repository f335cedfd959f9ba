import HaxeMacro.Proofs.Parser.Plain
import HaxeMacro.Proofs.Parser.Rows

/-! # The spans of what is read

Every production lays its pieces out in a row, in the order of the text. A form gets the span of all
that was read for it, or the span from its first piece to its last. So the spans of an expression
that is read are nested, and stand in the text.
-/

namespace HaxeMacro

open Parser Token Grammar Position

/-! ## Tokens -/

namespace Token

theorem eats_keyword {word : String} (h : 0 < word.toList.length) : Eats 1 (keyword word) :=
  Keeps.eats fun n => keeps_keyword n h

theorem eats_optionalSymbol {word : String} (h : 0 < word.toList.length) :
    Eats 0 (optional (symbol word)) := (eats_symbol h).optional

end Token

namespace Grammar

theorem eats_varWord : Eats 1 varWord := Keeps.eats keeps_varWord

theorem eats_typeHint (src : Source) : Eats 0 (optional (typeHint (complexType src))) :=
  Eats.optional <| Keeps.eats_left fun n =>
    (keeps_typeHint (keeps_complexType (moves_id src))).mono (Nat.le_refl 1) (Nat.le_succ n)

theorem eats_path (src : Source) : Eats 1 (typePath (complexType src)) :=
  Keeps.eats_left fun n =>
    (keeps_typePath (keeps_complexType (moves_id src))).mono (Nat.le_refl 1) (Nat.le_succ n)

end Grammar

/-! ## Pieces of lists -/

/-- What may be missing is one piece or none. -/
def Piece.ofOption (e? : Option Expr) : List Piece := e?.toList.map .expr

theorem flatMap_expr (es : List Expr) : es.flatMap (fun e => [Piece.expr e]) = es.map .expr :=
  List.map_eq_flatMap.symm

theorem flatMap_ofOption {α : Type} (f : α → Option Expr) (as : List α) :
    as.flatMap (fun a => Piece.ofOption (f a)) = (as.filterMap f).map .expr := by
  induction as with
  | nil => rfl
  | cons a as ih =>
    rw [List.flatMap_cons, ih, Piece.ofOption]
    cases h : f a <;> simp [h]

namespace Grammar

section

variable {src : Source} {before : List Piece} {expr tight : Parser Expr}
  (he : Stands src expr) (ht : Stands src tight)

/-! ## Parts -/

section
include he

theorem lays_argumentsTail : Lays src [] (List.map .expr) (argumentsTail expr) := by
  refine (he.sepBy (eats_symbol (by decide))).bind fun args => ?_
  exact Lays.skip (eats_symbol (by decide)) fun _ => Lays.pure (flatMap_expr args).symm

theorem lays_arguments : Lays src [] (List.map .expr) (arguments expr) :=
  Lays.skip (eats_symbol (by decide)) fun _ => lays_argumentsTail he

theorem lays_condition : Lays src [] (fun e => [.expr e]) (condition expr) := by
  refine Lays.skip (eats_symbol (by decide)) fun _ => he.bind fun e => ?_
  exact Lays.skip (eats_symbol (by decide)) fun _ => Lays.pure rfl

theorem lays_metadata : Lays src [] (fun entry => [.entry entry]) (metadata src expr) := by
  refine Lays.fromHere fun start entry rest h => ?_
  obtain ⟨_, s₁, hat, h⟩ := bind_eq_done h
  obtain ⟨colon, s₂, hcolon, h⟩ := bind_eq_done h
  obtain ⟨word, s₃, hword, h⟩ := bind_eq_done h
  obtain ⟨args?, s₄, hargs, h⟩ := bind_eq_done h
  cases h
  have htail : Lays src [] (List.map .expr) (do text "("; argumentsTail expr) :=
    Lays.skip (eats_text "(") fun _ => lays_argumentsTail he
  have hstart : s₃ <:+ start := (eats_name.suffix hword).trans <|
    ((eats_text ":").present.suffix hcolon).trans ((eats_text "@").suffix hat)
  have hrow := htail.optional start s₃ args? _ (.nil hstart) hargs
  refine Row.wrap ?_ rfl
  cases args? <;> exact hrow

end

/-! ## Keywords -/

include he

theorem lays_varDecl (isFinal isStatic : Bool) :
    Lays src [] (fun v => Piece.ofOption v.init) (varDecl src expr isFinal isStatic) := by
  refine Lays.skip eats_identifier fun name => Lays.skip (eats_typeHint src) fun type => ?_
  have hinit : Stands src (do symbol "="; lacks (char fun c => c == '=' || c == '>'); expr) :=
    Lays.skip (eats_symbol (by decide)) fun _ =>
      Lays.skip (Keeps.eats fun n => ((eats_char _).keeps n).lacks) fun _ => he
  refine hinit.optional.bind fun init => ?_
  cases init <;> exact Lays.pure rfl

theorem lays_varExpr : Lays src [] ExprKind.pieces (varExpr src expr) := by
  refine Lays.skip (eats_keyword (by decide)).present fun isStatic => ?_
  refine Lays.skip eats_varWord fun isFinal => ?_
  refine ((lays_varDecl he isFinal isStatic).sepBy1 (eats_symbol (by decide))).bind fun vs => ?_
  exact Lays.pure (flatMap_ofOption Var.init vs).symm

theorem lays_param : Lays src [] (fun p => Piece.ofOption p.default) (param src expr) := by
  refine Lays.skip (eats_symbol (by decide)).present fun mark => ?_
  refine Lays.skip eats_identifier fun name => Lays.skip (eats_typeHint src) fun type => ?_
  have hdefault : Stands src (do symbol "="; expr) :=
    Lays.skip (eats_symbol (by decide)) fun _ => he
  refine hdefault.optional.bind fun default => ?_
  cases default <;> exact Lays.pure rfl

theorem lays_functionExpr : Lays src [] ExprKind.pieces (functionExpr src expr) := by
  refine Lays.skip (eats_keyword (by decide)) fun _ => ?_
  refine Lays.skip eats_identifier.optional fun name => ?_
  refine Lays.skip (eats_symbol (by decide)) fun _ => ?_
  refine ((lays_param he).sepBy (eats_symbol (by decide))).bind fun params => ?_
  refine Lays.skip (eats_symbol (by decide)) fun _ => Lays.skip (eats_typeHint src) fun ret => ?_
  refine he.frame.bind fun body => Lays.pure ?_
  rw [flatMap_ofOption]
  exact List.map_append

theorem lays_ifExpr : Lays src [] ExprKind.pieces (ifExpr expr) := by
  refine Lays.skip (eats_keyword (by decide)) fun _ => (lays_condition he).bind fun test => ?_
  refine he.frame.bind fun yes => ?_
  have hno : Stands src (do let _ ← optional (symbol ";"); keyword "else"; expr) :=
    Lays.skip (eats_optionalSymbol (by decide)) fun _ =>
      Lays.skip (eats_keyword (by decide)) fun _ => he
  refine hno.optional.frame.bind fun no => ?_
  cases no <;> exact Lays.pure rfl

theorem lays_whileExpr : Lays src [] ExprKind.pieces (whileExpr expr) := by
  refine Lays.skip (eats_keyword (by decide)) fun _ => (lays_condition he).bind fun test => ?_
  exact he.frame.bind fun body => Lays.pure rfl

theorem lays_doWhileExpr : Lays src [] ExprKind.pieces (doWhileExpr expr) := by
  refine Lays.skip (eats_keyword (by decide)) fun _ => he.bind fun body => ?_
  refine Lays.skip (eats_optionalSymbol (by decide)) fun _ => ?_
  refine Lays.skip (eats_keyword (by decide)) fun _ => ?_
  exact (lays_condition he).frame.bind fun test => Lays.pure rfl

/-- The head of a `for` covers its variable and its range. -/
theorem lays_forExpr (hsrc : src.file ≠ noFile) :
    Lays src [] ExprKind.pieces (forExpr src expr) := by
  refine Lays.skip (eats_keyword (by decide)) fun _ => ?_
  refine Lays.skip (eats_symbol (by decide)) fun _ => ?_
  intro s₀ s kind rest hrow h
  obtain ⟨_, start, hblanks, h⟩ := bind_eq_done h
  obtain ⟨_, _, hstart, h⟩ := bind_eq_done h
  cases hstart
  obtain ⟨name, stop, hname, h⟩ := bind_eq_done h
  obtain ⟨_, _, hstop, h⟩ := bind_eq_done h
  cases hstop
  obtain ⟨_, s₁, hin, h⟩ := bind_eq_done h
  obtain ⟨range, s₂, hrange, h⟩ := bind_eq_done h
  obtain ⟨_, s₃, hclose, h⟩ := bind_eq_done h
  obtain ⟨body, s₄, hbody, h⟩ := bind_eq_done h
  cases h
  let var := Expr.ident name (src.span start stop)
  have hvar : Row src start [.expr var] s₁ :=
    (Row.wrap (.nil (eats_identifier.suffix hname)) rfl).after
      ((eats_keyword (by decide)).suffix hin)
  have hhead := Row.join [] (p := .expr ⟨.binary .isIn var range, _⟩) hsrc
    (he.frame start s₁ range s₂ hvar hrange) rfl rfl
  have hfirst := (hrow.after (eats_blanks.suffix hblanks)).append hhead
  have hclosed := hfirst.after ((eats_symbol (by decide)).suffix hclose)
  exact he.frame s₀ s₃ body _ hclosed hbody

theorem lays_newExpr : Lays src [] ExprKind.pieces (newExpr src expr) := by
  refine Lays.skip (eats_keyword (by decide)) fun _ => Lays.skip eats_blanks fun _ => ?_
  refine Lays.skip (eats_path src) fun path => ?_
  exact (lays_arguments he).bind fun args => Lays.pure rfl

include ht in
theorem lays_castExpr : Lays src [] ExprKind.pieces (castExpr src expr tight) := by
  refine Lays.skip (eats_keyword (by decide)) fun _ => ?_
  have hchecked : Lays src [] ExprKind.pieces (do
      symbol "("
      let e ← expr
      symbol ","
      blanks
      let t ← complexType src
      symbol ")"
      return ExprKind.cast e (some t)) := by
    refine Lays.skip (eats_symbol (by decide)) fun _ => he.bind fun e => ?_
    refine Lays.skip (eats_symbol (by decide)) fun _ => Lays.skip eats_blanks fun _ => ?_
    refine Lays.skip (eats_complexType src) fun t => ?_
    exact Lays.skip (eats_symbol (by decide)) fun _ => Lays.pure rfl
  refine hchecked.optional.bind fun kind? => ?_
  cases kind? with
  | some kind => exact Lays.pure rfl
  | none => exact ht.bind fun e => Lays.pure rfl

include ht in
theorem lays_keywordExpr (hsrc : src.file ≠ noFile) :
    Lays src [] ExprKind.pieces (keywordExpr src expr tight) := by
  refine Lays.oneOf fun p hp => ?_
  simp only [List.mem_cons, List.not_mem_nil, or_false] at hp
  rcases hp with rfl | rfl | rfl | rfl | rfl | rfl | rfl | rfl | rfl | rfl | rfl | rfl | rfl
  · exact lays_varExpr he
  · exact lays_functionExpr he
  · exact lays_ifExpr he
  · exact lays_whileExpr he
  · exact lays_doWhileExpr he
  · exact lays_forExpr he hsrc
  · exact lays_newExpr he
  · exact lays_castExpr he ht
  · refine Lays.skip (eats_keyword (by decide)) fun _ => he.optional.bind fun value => ?_
    cases value <;> exact Lays.pure rfl
  · exact Lays.skip (eats_keyword (by decide)) fun _ => he.bind fun e => Lays.pure rfl
  · exact Lays.skip (eats_keyword (by decide)) fun _ => he.bind fun e => Lays.pure rfl
  · exact Lays.skip (eats_keyword (by decide)) fun _ => Lays.pure rfl
  · exact Lays.skip (eats_keyword (by decide)) fun _ => Lays.pure rfl

/-! ## Other forms -/

theorem lays_metaExpr : Lays src [] ExprKind.pieces (metaExpr src expr) :=
  (lays_metadata he).bind fun _ => he.frame.bind fun _ => Lays.pure rfl

theorem lays_parenExpr : Lays src [] ExprKind.pieces (parenExpr src expr) := by
  refine Lays.skip (eats_symbol (by decide)) fun _ => he.bind fun inner => ?_
  refine Lays.skip (eats_typeHint src) fun type => Lays.skip (eats_symbol (by decide)) fun _ => ?_
  cases type <;> exact Lays.pure rfl

theorem lays_arrayExpr : Lays src [] ExprKind.pieces (arrayExpr expr) := by
  refine Lays.skip (eats_symbol (by decide)) fun _ => ?_
  refine (he.sepBy (eats_symbol (by decide))).bind fun items => ?_
  refine Lays.skip (eats_optionalSymbol (by decide)) fun _ => ?_
  exact Lays.skip (eats_symbol (by decide)) fun _ => Lays.pure (flatMap_expr items).symm

theorem lays_objectField : Lays src [] (fun field => [.expr field.value]) (objectField expr) := by
  refine Lays.skip eats_blanks fun _ => ?_
  have hname : Eats 0 (or (do return (← anyIdentifier, false))
      (do return ((← stringLiteral).1, true))) :=
    Keeps.eats fun n => Keeps.or
      ((eats_anyIdentifier.keeps n).weaken.andThen fun _ => Keeps.pure rfl)
      ((eats_stringLiteral.keeps n).weaken.andThen fun _ => Keeps.pure rfl)
  refine Lays.skip hname fun name => Lays.skip (eats_symbol (by decide)) fun _ => ?_
  exact he.bind fun value => Lays.pure rfl

theorem lays_objectTail : Lays src [] ExprKind.pieces (objectTail expr) := by
  refine ((lays_objectField he).sepBy1 (eats_symbol (by decide))).bind fun fields => ?_
  refine Lays.skip (eats_optionalSymbol (by decide)) fun _ => ?_
  refine Lays.skip (eats_symbol (by decide)) fun _ => Lays.pure ?_
  change (fields.map (·.value)).map Piece.expr = _
  rw [List.map_map, List.map_eq_flatMap]
  rfl

theorem lays_statement : Lays src [] Piece.ofOption (statement expr) := by
  refine Lays.or (he.bind fun e => ?_) ?_
  · exact Lays.skip (eats_optionalSymbol (by decide)) fun _ => Lays.pure rfl
  · exact Lays.skip (eats_symbol (by decide)) fun _ => Lays.pure rfl

theorem lays_blockTail : Lays src [] ExprKind.pieces (blockTail expr) := by
  refine (lays_statement he).many.bind fun statements => ?_
  refine Lays.skip (eats_symbol (by decide)) fun _ => ?_
  exact Lays.pure (flatMap_ofOption id statements).symm

theorem lays_braces : Lays src [] ExprKind.pieces (braces expr) :=
  Lays.skip (eats_symbol (by decide)) fun _ => (lays_objectTail he).or (lays_blockTail he)

omit he in
theorem lays_constant : Lays src [] ExprKind.pieces constant := by
  refine Lays.oneOf fun p hp => ?_
  simp only [List.mem_cons, List.not_mem_nil, or_false] at hp
  rcases hp with rfl | rfl | rfl | rfl
  · exact Lays.skip eats_number fun _ => Lays.pure rfl
  · exact Lays.skip eats_stringLiteral fun _ => Lays.pure rfl
  · exact Lays.skip eats_regexpLiteral fun _ => Lays.pure rfl
  · exact Lays.skip eats_identifier fun _ => Lays.pure rfl

include ht in
theorem stands_primary (hsrc : src.file ≠ noFile) : Stands src (primary src expr tight) := by
  have hkind : Lays src [] ExprKind.pieces (Parser.oneOf [keywordExpr src expr tight,
      metaExpr src expr, parenExpr src expr, arrayExpr expr, braces expr, constant]) := by
    refine Lays.oneOf fun p hp => ?_
    simp only [List.mem_cons, List.not_mem_nil, or_false] at hp
    rcases hp with rfl | rfl | rfl | rfl | rfl | rfl
    · exact lays_keywordExpr he ht hsrc
    · exact lays_metaExpr he
    · exact lays_parenExpr he
    · exact lays_arrayExpr he
    · exact lays_braces he
    · exact lays_constant
  refine Lays.fromHere fun start e rest h => ?_
  obtain ⟨kind, stop, hread, h⟩ := bind_eq_done h
  cases h
  exact Row.wrap (hkind start start kind _ (.nil (List.suffix_refl start)) hread) rfl

/-! ## Operands -/

theorem lays_suffix (e : Expr) : Lays src [.expr e] ExprKind.pieces (suffix expr e) := by
  refine Lays.oneOf fun p hp => ?_
  simp only [List.mem_cons, List.not_mem_nil, or_false] at hp
  rcases hp with rfl | rfl | rfl | rfl
  · exact Lays.skip (eats_symbol (by decide)) fun _ => Lays.skip eats_anyIdentifier fun name =>
      Lays.pure rfl
  · exact (lays_arguments he).frame.bind fun args => Lays.pure rfl
  · refine Lays.skip (eats_symbol (by decide)) fun _ => he.frame.bind fun i => ?_
    exact Lays.skip (eats_symbol (by decide)) fun _ => Lays.pure rfl
  · exact Lays.skip eats_trailingOp fun op => Lays.pure rfl

include ht in
theorem stands_postfixed (hsrc : src.file ≠ noFile) : Stands src (postfixed src expr tight) := by
  refine Lays.fromHere fun start e rest h => ?_
  obtain ⟨first, s₁, hfirst, h⟩ := bind_eq_done h
  have hrow := stands_primary he ht hsrc start start first s₁ (.nil (List.suffix_refl start)) hfirst
  refine (grow_eq_done (P := fun e s => Row src start [.expr e] s) ?_ hrow h).1
  intro e grown s t hrow hstep
  obtain ⟨kind?, s₂, hreply, hstep⟩ := bind_eq_done hstep
  rcases optional_eq_done hreply with ⟨kind, rfl, hkind⟩ | ⟨rfl, -⟩
  · cases hstep
    exact Row.wrap (lays_suffix he e start s kind _ hrow hkind) rfl
  · cases hstep

omit he in
theorem row_applyLeading {s rest : List Char} {e : Expr} (op : UnaryOp)
    (h : Row src s [.expr e] rest) : Row src s (applyLeading op e).pieces rest := by
  unfold applyLeading
  split
  · exact h.clear
  · exact h.clear
  · exact h

include ht in
theorem stands_leading (hsrc : src.file ≠ noFile) : Stands src (leading src expr tight) := by
  refine Lays.fromHere fun start e rest h => ?_
  obtain ⟨op?, s₁, hop, h⟩ := bind_eq_done h
  have hrow : Row src start [] s₁ := .nil (eats_leadingOp.optional.suffix hop)
  cases op? with
  | none => exact stands_postfixed he ht hsrc start s₁ e rest hrow h
  | some op =>
    obtain ⟨inner, s₂, hinner, h⟩ := bind_eq_done h
    cases h
    exact Row.wrap (row_applyLeading op (ht start s₁ inner _ hrow hinner)) rfl

end

/-! ## Operators -/

section

variable {src : Source} (hsrc : src.file ≠ noFile) {binary : Nat → Parser Expr}
  (hb : ∀ least, Stands src (binary least))
include hsrc hb

theorem lays_ternaryTail (test : Expr) :
    Lays src [.expr test] (fun e => [.expr e]) (ternaryTail binary test) := by
  refine (hb 0).frame.bind fun yes => Lays.skip (eats_symbol (by decide)) fun _ => ?_
  refine (hb ternaryLevel).frame.bind fun no => ?_
  intro s₀ s e rest hrow h
  cases h
  exact Row.join [.expr yes] hsrc hrow rfl rfl

theorem lays_operatorTail (least : Nat) (left : Expr) :
    Lays src [.expr left] (fun e? => e?.elim [.expr left] fun e => [.expr e])
      (operatorTail binary least left) := by
  refine Lays.skip eats_binaryOp.optional fun op? => ?_
  cases op? with
  | none => exact Lays.pure rfl
  | some op =>
    dsimp only
    split
    · exact Lays.pure rfl
    · refine (hb (rightLevel op)).frame.bind fun right => ?_
      intro s₀ s e rest hrow h
      cases h
      exact Row.join [] hsrc hrow rfl rfl

theorem lays_binaryStep (least : Nat) (left : Expr) :
    Lays src [.expr left] (fun e? => e?.elim [.expr left] fun e => [.expr e])
      (binaryStep binary least left) := by
  have hasked (asks : Bool) : Lays src [.expr left]
      (fun e? => e?.elim [.expr left] fun e => [.expr e])
      (if asks then do return some (← ternaryTail binary left)
        else operatorTail binary least left) := by
    cases asks with
    | false => exact lays_operatorTail hsrc hb least left
    | true => exact (lays_ternaryTail hsrc hb left).bind fun e => Lays.pure rfl
  unfold binaryStep
  split
  · exact Lays.skip eats_ternaryMark.present hasked
  · exact hasked false

theorem stands_climb {tight : Parser Expr} (ht : Stands src tight) (least : Nat) :
    Stands src (climb tight binary least) := by
  intro s₀ s e rest hrow h
  obtain ⟨first, s₁, hfirst, h⟩ := bind_eq_done h
  refine (grow_eq_done (P := fun e s => Row src s₀ [.expr e] s) ?_
    (ht s₀ s first s₁ hrow hfirst) h).1
  exact fun left grown s t hrow hstep => lays_binaryStep hsrc hb least left s₀ s _ t hrow hstep

end

theorem stands_operand_binary {src : Source} (hsrc : src.file ≠ noFile) (steps : Nat) :
    Stands src (operand src steps) ∧ ∀ least, Stands src (binary src steps least) := by
  induction steps with
  | zero => exact ⟨fun s₀ s e rest _ h => (by cases h), fun least s₀ s e rest _ h => (by cases h)⟩
  | succ steps ih =>
    obtain ⟨hoperand, hbinary⟩ := ih
    exact ⟨stands_leading (hbinary 0) hoperand hsrc,
      fun least => stands_climb hsrc hbinary hoperand least⟩

theorem stands_expression {src : Source} (hsrc : src.file ≠ noFile) :
    Stands src (expression src) :=
  fun s₀ s e rest hrow h => (stands_operand_binary hsrc (stepsFor s)).2 0 s₀ s e rest hrow h

end Grammar

/-! ## Whole texts -/

theorem Grammar.offset_start (text : String) (pos : Position) :
    (Source.of text.toList pos).offset text.toList = pos.min := by
  apply UInt32.toNat_inj.mp
  have hpos : pos.min.toNat ≤ limit := Nat.le_of_lt_succ pos.min.toNat_lt
  rw [Source.offset, Source.of, toNat_clamp, Nat.sub_self, Nat.add_zero]
  exact Nat.min_eq_left hpos

theorem Grammar.offset_le_size (text : String) (pos : Position) (rest : List Char) :
    (Source.of text.toList pos).offset rest ≤ clamp (pos.min.toNat + text.utf8ByteSize) := by
  rw [← byteCount_toList]
  exact clamp_mono (Nat.add_le_add_left (Nat.sub_le _ _) _)

/-- The spans of an expression that is read are nested: every expression in it stands in the text,
and each of its direct sub-expressions and of the metadata entries it carries stands inside it.
Types hold no expressions, so there are no others. -/
theorem Expr.nested_of_parse {text : String} {pos : Position} {e : Expr}
    (hpos : pos.file ≠ Position.noFile) (h : Expr.parse text pos = .ok e) :
    e.Plain ∧ ∀ node ∈ e.nodes,
      node.pos.Within ⟨pos.file, pos.min, Position.clamp (pos.min.toNat + text.utf8ByteSize)⟩ ∧
      node.pos.min ≤ node.pos.max ∧
      (∀ child ∈ node.children, child.pos.Within node.pos) ∧
      ∀ entry ∈ node.entries, entry.pos.Within node.pos := by
  have hplain := Expr.plain_of_parse h
  refine ⟨hplain, fun node hnode => ?_⟩
  obtain ⟨rest, hread⟩ := Entry.done_of_readAll h
  have hrow := Grammar.stands_expression hpos _ _ e rest (.nil (List.suffix_refl _)) hread
  obtain ⟨hmin, -, hmax⟩ := hrow.spread
  have hwhole : e.pos.Within
      ⟨pos.file, pos.min, Position.clamp (pos.min.toNat + text.utf8ByteSize)⟩ := by
    have hnested := hrow.nested (.expr e) List.mem_cons_self
    refine ⟨hnested.file_eq, ?_, UInt32.le_trans hmax (Grammar.offset_le_size text pos rest)⟩
    rw [Grammar.offset_start] at hmin
    exact hmin
  obtain ⟨hnested, hwithin⟩ := (hrow.nested (.expr e) List.mem_cons_self).node hnode
  refine ⟨hwithin.trans hwhole, hnested.le, fun child hchild => (hnested.child hchild).2, ?_⟩
  exact fun entry hentry => hnested.within ((hplain.node hnode).piece_of_entry hentry)

theorem Expr.nested_near_limit : (3 : UInt32) ≠ Position.noFile ∧ ∃ e,
    Expr.parse "@m(1 + 2) for (i in 0...n) a[i] = -f(i)" ⟨3, 4294967265, 0⟩ = .ok e ∧
    e.Plain ∧ ∀ node ∈ e.nodes,
      node.pos.Within ⟨3, 4294967265, 4294967295⟩ ∧
      node.pos.min ≤ node.pos.max ∧
      (∀ child ∈ node.children, child.pos.Within node.pos) ∧
      ∀ entry ∈ node.entries, entry.pos.Within node.pos := by
  have hfile : (3 : UInt32) ≠ Position.noFile := by decide
  have hok : (Expr.parse "@m(1 + 2) for (i in 0...n) a[i] = -f(i)" ⟨3, 4294967265, 0⟩).isOk =
      true := by
    decide +kernel
  refine ⟨hfile, ?_⟩
  cases h : Expr.parse "@m(1 + 2) for (i in 0...n) a[i] = -f(i)" ⟨3, 4294967265, 0⟩ with
  | ok e => exact ⟨e, rfl, Expr.nested_of_parse hfile h⟩
  | error _ =>
    rw [h] at hok
    cases hok

end HaxeMacro
