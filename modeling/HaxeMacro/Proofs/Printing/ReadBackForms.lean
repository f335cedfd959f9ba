import HaxeMacro.Proofs.Printing.ReadBack

/-! # Every form is read back

Form by form: the text of a form is read back if its parts are read back where they stand in it.
-/

namespace HaxeMacro

open Parser Token Grammar

/-! ## Lists -/

theorem printExprs_eq_map (es : List Expr) : printExprs es = es.map (·.print) :=
  eq_map_of_cons rfl (fun _ _ => rfl) es

def ObjectField.printField (field : ObjectField) : List Char :=
  (if field.quoted then quoteDouble field.name else chars field.name) ++ chars " : " ++
    field.value.print

theorem printObjectFields_eq_map (fields : List ObjectField) :
    printObjectFields fields = fields.map (·.printField) := by
  refine eq_map_of_cons rfl (fun field fields => ?_) fields
  cases field
  rfl

def Var.printDecl (v : Var) : List Char := chars v.name ++ printHint v.type ++ printDefault v.init

theorem printVars_eq_map (vs : List Var) : printVars vs = vs.map (·.printDecl) := by
  refine eq_map_of_cons rfl (fun v vs => ?_) vs
  cases v
  rfl

def Param.printDecl (p : Param) : List Char :=
  (if p.optional then ['?'] else []) ++ chars p.name ++ printHint p.type ++ printDefault p.default

theorem printParams_eq_map (ps : List Param) : printParams ps = ps.map (·.printDecl) := by
  refine eq_map_of_cons rfl (fun p ps => ?_) ps
  cases p
  rfl

theorem printStatements_append (e : Expr) (es : List Expr) (s : List Char) :
    printStatements (e :: es) ++ s = ' ' :: (e.kind.print ++ ';' :: (printStatements es ++ s)) := by
  simp [printStatements, Expr.print_eq]

theorem neighbours_of_dropLast {β : Type} {R : β → β → Prop} (xs : List β)
    (h : ∀ x ∈ xs.dropLast, ∀ y, R x y) : Neighbours R xs := by
  induction xs with
  | nil => trivial
  | cons x xs ih =>
    cases xs with
    | nil => trivial
    | cons y ys =>
      exact ⟨h x List.mem_cons_self y, ih fun z hz => h z (List.mem_cons_of_mem _ hz)⟩

/-- A name does not start with a mark. -/
theorem Token.IsName.head_ne {word : String} (h : IsName word) {d : Char}
    (hd : Text.startsName d = false) (s : List Char) : ∀ c ∈ (chars word ++ s).head?, c ≠ d := by
  obtain ⟨c, cs, hword, hc, -⟩ := h
  rintro _ hhead rfl
  rw [chars, hword] at hhead
  cases hhead
  rw [hc] at hd
  cases hd

namespace ExprKind

namespace ReadsBack

variable {e : Expr} {s : List Char}

theorem expr (h : e.kind.ReadsBack) (hs : e.kind.Stops s) :
    Reads (exprAt .nowhere 0) e.print (e.relocate fun _ => .null) s := by
  rw [Expr.print_eq, Expr.relocate_null]
  exact h.reads hs

theorem here (h : e.kind.ReadsBack) (hs : e.kind.Stops s) :
    exprAt .nowhere 0 (e.kind.print ++ s) = .done (e.relocate fun _ => .null) s := by
  rw [Expr.relocate_null]
  exact (h.reads hs).append h.startsToken

theorem space (h : e.kind.ReadsBack) (hs : e.kind.Stops s) :
    exprAt .nowhere 0 (' ' :: (e.kind.print ++ s)) = .done (e.relocate fun _ => .null) s := by
  rw [Expr.relocate_null]
  exact (h.reads hs).space h.startsToken

theorem start (h : e.kind.ReadsBack) : StartsToken e.print := by
  rw [Expr.print_eq]
  exact h.startsToken

theorem noColon (h : e.kind.ReadsBack) (s : List Char) :
    Refuses (symbol ":") (' ' :: (e.kind.print ++ s)) :=
  h.refuses_symbol (c := ':') (w := []) rfl (by decide) (h.skipBlanks_append s)

theorem starts_semicolon (h : e.kind.ReadsBack) (s : List Char) :
    Starts (e.kind.print ++ ';' :: s) :=
  h.starts _ (typeEnds_of_mem s (by decide)).breaks ⟨_, rfl⟩

end ReadsBack

/-- Items between commas, before a bracket. -/
theorem sepBy_items {items : List Expr} (hitems : ∀ e ∈ items, e.kind.ReadsBack)
    (hlisted : ∀ e ∈ items.dropLast, e.kind.endsWith isDeclaration = false) {c : Char}
    (hc : c = ')' ∨ c = ']') (s : List Char) :
    sepBy (exprAt .nowhere 0) (symbol ",") (joinWith ", " (printExprs items) ++ c :: s) =
      .done (relocateExprs (fun _ => .null) items) (c :: s) := by
  have hcloser : c ∈ closers ∧ startsBlank c = false ∧ c ≠ ',' := by
    rcases hc with rfl | rfl <;> decide
  have hskip := skipBlanks_cons s hcloser.2.1
  rw [printExprs_eq_map, relocateExprs_eq_map]
  by_cases hne : items = []
  · subst hne
    exact sepBy_nil (refuses_value hskip hcloser.1)
  · have hend : Refuses (do let _ ← symbol ","; exprAt .nowhere 0) (c :: s) :=
      (refuses_symbol (c := ',') (w := []) rfl hskip hcloser.2.2).bind
    have hstart : ∀ e ∈ items, StartsToken e.print := fun e he => (hitems e he).start
    have hall := reads_sepBy (eats_exprAt .nowhere 0) hend hne
      (fun e he t ht => (hitems e he).expr ht) hstart (fun e _ => stops_bracket e.kind s hc)
      (neighbours_of_dropLast items fun e he _ t => stops_comma _ (hlisted e he))
    exact hall.append (startsToken_joinWith hne hstart)

theorem reads_argumentsTail {args : List Expr} (hargs : ∀ e ∈ args, e.kind.ReadsBack)
    (hlisted : ∀ e ∈ args.dropLast, e.kind.endsWith isDeclaration = false) (s : List Char) :
    argumentsTail (exprAt .nowhere 0) (joinWith ", " (printExprs args) ++ ')' :: s) =
      .done (relocateExprs (fun _ => .null) args) s := by
  have hclose : symbol ")" (')' :: s) = .done () s := rfl
  rw [argumentsTail, bind_of_done (sepBy_items hargs hlisted (Or.inl rfl) s), bind_of_done hclose]
  rfl

theorem reads_arguments {args : List Expr} (hargs : ∀ e ∈ args, e.kind.ReadsBack)
    (hlisted : ∀ e ∈ args.dropLast, e.kind.endsWith isDeclaration = false) (s : List Char) :
    arguments (exprAt .nowhere 0) ('(' :: (joinWith ", " (printExprs args) ++ ')' :: s)) =
      .done (relocateExprs (fun _ => .null) args) s := by
  have hopen (r : List Char) : symbol "(" ('(' :: r) = .done () r := rfl
  rw [arguments, bind_of_done (hopen _), reads_argumentsTail hargs hlisted]

theorem reads_condition {test : Expr} (htest : test.kind.ReadsBack) (s : List Char) :
    condition (exprAt .nowhere 0) (' ' :: '(' :: (test.kind.print ++ ')' :: s)) =
      .done (test.relocate fun _ => .null) s := by
  have hopen (r : List Char) : symbol "(" (' ' :: '(' :: r) = .done () r := rfl
  have hclose : symbol ")" (')' :: s) = .done () s := rfl
  rw [condition, bind_of_done (hopen _), bind_of_done (htest.here (stops_bracket _ s (Or.inl rfl))),
    bind_of_done hclose]
  rfl

/-! ## Suffixes -/

variable {e : Expr}

theorem baseBack_field {name : String} (he : e.kind.BaseBack) (hclosed : e.kind.IsClosed)
    (hfits : ∀ s, Breaks s → e.kind.Fits s) (hname : IsName name) :
    (ExprKind.field e name).BaseBack := by
  have htext (s : List Char) : (ExprKind.field e name).print ++ s =
      e.kind.print ++ '.' :: (chars name ++ s) := by
    simp [ExprKind.print, Expr.print_eq]
  refine .of_suffix he hclosed hfits htext (by decide) (fun s _ => breaks_point_name hname s)
    fun s hs => or_of_done ?_
  have hpoint (r : List Char) : symbol "." ('.' :: r) = .done () r := rfl
  rw [bind_of_done (hpoint _), bind_of_done (anyIdentifier_append hname hs.breaks),
    ← Expr.relocate_null]
  rfl

theorem refuses_field (e : Expr) {c : Char} (hc : startsBlank c = false) (hne : c ≠ '.')
    (s : List Char) : Refuses (do symbol "."; return ExprKind.field e (← anyIdentifier)) (c :: s) :=
  (refuses_symbol (c := '.') (w := []) rfl (skipBlanks_cons s hc) hne).bind

theorem baseBack_call {args : List Expr} (he : e.kind.BaseBack) (hclosed : e.kind.IsClosed)
    (hfits : ∀ s, Breaks s → e.kind.Fits s) (hargs : ∀ arg ∈ args, arg.kind.ReadsBack)
    (hlisted : ∀ arg ∈ args.dropLast, arg.kind.endsWith isDeclaration = false) :
    (ExprKind.call e args).BaseBack := by
  have htext (s : List Char) : (ExprKind.call e args).print ++ s =
      e.kind.print ++ '(' :: (joinWith ", " (printExprs args) ++ ')' :: s) := by
    simp [ExprKind.print, Expr.print_eq]
  refine .of_suffix he hclosed hfits htext (by decide)
    (fun s _ => breaks_mark _ (by decide)) fun s hs => ?_
  have hfield (r : List Char) := refuses_field e.kind.bare (c := '(') (by decide) (by decide) r
  rw [suffix, oneOf, (hfield _).or_eq]
  refine or_of_done ?_
  rw [bind_of_done (reads_arguments hargs hlisted s), ← Expr.relocate_null]
  rfl

theorem baseBack_index {i : Expr} (he : e.kind.BaseBack) (hclosed : e.kind.IsClosed)
    (hfits : ∀ s, Breaks s → e.kind.Fits s) (hi : i.kind.ReadsBack) :
    (ExprKind.index e i).BaseBack := by
  have htext (s : List Char) : (ExprKind.index e i).print ++ s =
      e.kind.print ++ '[' :: (i.kind.print ++ ']' :: s) := by
    simp [ExprKind.print, Expr.print_eq]
  refine .of_suffix he hclosed hfits htext (by decide)
    (fun s _ => breaks_mark _ (by decide)) fun s hs => ?_
  have hfield (r : List Char) := refuses_field e.kind.bare (c := '[') (by decide) (by decide) r
  have hcall (r : List Char) : Refuses
      (do return ExprKind.call e.kind.bare (← arguments (exprAt .nowhere 0))) ('[' :: r) := ⟨_, rfl⟩
  have hopen (r : List Char) : symbol "[" ('[' :: r) = .done () r := rfl
  have hclose : symbol "]" (']' :: s) = .done () s := rfl
  rw [suffix, oneOf, (hfield _).or_eq, oneOf, (hcall _).or_eq]
  refine or_of_done ?_
  rw [bind_of_done (hopen _), bind_of_done (hi.here (stops_bracket _ s (Or.inr rfl))),
    bind_of_done hclose, ← Expr.relocate_null]
  rfl

theorem baseBack_trailing {op : UnaryOp} (he : e.kind.BaseBack) (hclosed : e.kind.IsClosed)
    (hfits : ∀ s, Breaks s → e.kind.Fits s) (hop : op = .increment ∨ op = .decrement) :
    (ExprKind.unary op true e).BaseBack := by
  obtain ⟨c, hc, hsymbol, hread⟩ : ∃ c, (c = '+' ∨ c = '-') ∧ chars op.symbol = [c, c] ∧
      ∀ s, suffix (exprAt .nowhere 0) e.kind.bare (c :: c :: s) =
        .done (.unary op true e.kind.bare) s := by
    rcases hop with rfl | rfl
    · exact ⟨'+', Or.inl rfl, rfl, fun _ => rfl⟩
    · exact ⟨'-', Or.inr rfl, rfl, fun _ => rfl⟩
  have htext (s : List Char) : (ExprKind.unary op true e).print ++ s =
      e.kind.print ++ c :: c :: s := by
    simp [ExprKind.print, Expr.print_eq, hsymbol]
  refine .of_suffix he hclosed hfits htext (by rcases hc with rfl | rfl <;> decide) (fun s _ => ?_)
    fun s hs => ?_
  · rcases hc with rfl | rfl <;> exact breaks_mark _ (by decide)
  · rw [hread, ← Expr.relocate_null]
    rfl

/-! ## Brackets -/

theorem baseBack_paren (he : e.kind.ReadsBack) : (ExprKind.paren e).BaseBack := by
  have htext (s : List Char) : (ExprKind.paren e).print ++ s =
      '(' :: (e.kind.print ++ ')' :: s) := by
    simp [ExprKind.print, Expr.print_eq]
  have hinner (s : List Char) := he.here (stops_bracket _ s (Or.inl rfl))
  refine .of_mark (List.mem_cons_of_mem _ List.mem_cons_self) htext (fun _ s t ht => ?_)
    fun s _ _ => ?_
  · have hopen : symbol "(" t = .done () (e.kind.print ++ ')' :: s) := reads_symbol "(" _ t ht
    exact Refuses.next hopen (Refuses.next (hinner s) (Refuses.bind ⟨_, rfl⟩))
  · have hopen (r : List Char) : symbol "(" ('(' :: r) = .done () r := rfl
    have hhint : Refuses (typeHint (complexType .nowhere)) (')' :: s) := Refuses.bind ⟨_, rfl⟩
    have hclose : symbol ")" (')' :: s) = .done () s := rfl
    rw [parenExpr, bind_of_done (hopen _), bind_of_done (hinner s), bind_of_done hhint.optional_eq,
      bind_of_done hclose]
    rfl

theorem baseBack_checkType {type : ComplexType} (he : e.kind.ReadsBack)
    (hlisted : e.kind.endsWith isDeclaration = false) (htype : type.Written) :
    (ExprKind.checkType e type).BaseBack := by
  have htext (s : List Char) : (ExprKind.checkType e type).print ++ s =
      '(' :: (e.kind.print ++ ' ' :: ':' :: ' ' :: (type.print ++ ')' :: s)) := by
    have hcolon : chars " : " = [' ', ':', ' '] := rfl
    simp [ExprKind.print, Expr.print_eq, hcolon]
  have hinner (s : List Char) := he.here (stops_colon s hlisted)
  refine .of_mark (List.mem_cons_of_mem _ List.mem_cons_self) htext (fun _ s t ht => ?_)
    fun s _ _ => ?_
  · have hopen := reads_symbol "(" _ t ht
    exact Refuses.next hopen (Refuses.next (hinner _) (Refuses.bind ⟨_, rfl⟩))
  · have hopen (r : List Char) : symbol "(" ('(' :: r) = .done () r := rfl
    have hcolon (r : List Char) : symbol ":" (' ' :: ':' :: ' ' :: r) = .done () (' ' :: r) := rfl
    have htype' : complexType .nowhere (' ' :: (type.print ++ ')' :: s)) =
        .done type.unplaced (')' :: s) :=
      (htype.readsBack.2 _ (typeEnds_of_mem s (by decide))).space htype.start
    have hhint : typeHint (complexType .nowhere) (' ' :: ':' :: ' ' :: (type.print ++ ')' :: s)) =
        .done type.unplaced (')' :: s) := (bind_of_done (hcolon _)).trans htype'
    have hclose : symbol ")" (')' :: s) = .done () s := rfl
    rw [parenExpr, bind_of_done (hopen _), bind_of_done (hinner _),
      bind_of_done (optional_of_done hhint), bind_of_done hclose]
    rfl

theorem baseBack_array {items : List Expr} (hitems : ∀ e ∈ items, e.kind.ReadsBack)
    (hlisted : ∀ e ∈ items.dropLast, e.kind.endsWith isDeclaration = false) :
    (ExprKind.array items).BaseBack := by
  have htext (s : List Char) : (ExprKind.array items).print ++ s =
      '[' :: (joinWith ", " (printExprs items) ++ ']' :: s) := by
    simp [ExprKind.print]
  refine .of_mark (List.mem_cons_of_mem _ (List.mem_cons_of_mem _ List.mem_cons_self)) htext
    (fun h => absurd h (by decide)) fun s _ _ => ?_
  have hopen (r : List Char) : symbol "[" ('[' :: r) = .done () r := rfl
  have hcomma : optional (symbol ",") (']' :: s) = .done none (']' :: s) := rfl
  have hclose : symbol "]" (']' :: s) = .done () s := rfl
  rw [arrayExpr, bind_of_done (hopen _), bind_of_done (sepBy_items hitems hlisted (Or.inr rfl) s),
    bind_of_done hcomma, bind_of_done hclose]
  rfl

/-! ## Braces -/

theorem reads_objectField {field : ObjectField} (hname : field.quoted = false → IsName field.name)
    (hvalue : field.value.kind.ReadsBack) {s : List Char} (hs : field.value.kind.Stops s) :
    Reads (objectField (exprAt .nowhere 0)) field.printField (field.relocate fun _ => .null) s := by
  intro t ht
  have htext : field.printField ++ s =
      (if field.quoted then quoteDouble field.name else chars field.name) ++
        ' ' :: ':' :: ' ' :: (field.value.kind.print ++ s) := by
    have hcolon : chars " : " = [' ', ':', ' '] := rfl
    simp [ObjectField.printField, Expr.print_eq, hcolon]
  rw [htext] at ht
  have hblanks : blanks t = .done () (skipBlanks t) := rfl
  have hword (r : List Char) : or (do return (← anyIdentifier, false))
      (do return ((← stringLiteral).1, true))
      ((if field.quoted then quoteDouble field.name else chars field.name) ++ ' ' :: r) =
        .done (field.name, field.quoted) (' ' :: r) := by
    cases hquoted : field.quoted with
    | false =>
      exact or_of_done (bind_of_done (anyIdentifier_append (hname hquoted) (breaks_space r)))
    | true =>
      have hblanks : blanks (quoteDouble field.name ++ ' ' :: r) =
          .done () (quoteDouble field.name ++ ' ' :: r) := rfl
      have hidentifier : Refuses (do return (← anyIdentifier, false))
          (quoteDouble field.name ++ ' ' :: r) := Refuses.bind (Refuses.next hblanks ⟨_, rfl⟩)
      exact hidentifier.or_eq.trans (bind_of_done (stringLiteral_append field.name (' ' :: r)))
  have hcolon (r : List Char) : symbol ":" (' ' :: ':' :: ' ' :: r) = .done () (' ' :: r) := rfl
  rw [objectField, bind_of_done hblanks, ht, bind_of_done (hword _)]
  dsimp only
  rw [bind_of_done (hcolon _), bind_of_done (hvalue.space hs)]
  cases field
  rfl

theorem startsToken_printField {field : ObjectField}
    (hname : field.quoted = false → IsName field.name) : StartsToken field.printField := by
  unfold ObjectField.printField
  rw [List.append_assoc]
  cases hquoted : field.quoted with
  | false => exact (hname hquoted).startsToken.append _
  | true => exact ⟨'"', rfl, rfl⟩

theorem baseBack_object {fields : List ObjectField} (hne : fields ≠ [])
    (hnames : ∀ field ∈ fields, field.quoted = false → IsName field.name)
    (hvalues : ∀ field ∈ fields, field.value.kind.ReadsBack)
    (hlisted : ∀ field ∈ fields.dropLast, field.value.kind.endsWith isDeclaration = false) :
    (ExprKind.object fields).BaseBack := by
  have htext (s : List Char) : (ExprKind.object fields).print ++ s = '\x7b' :: (' ' ::
      (joinWith ", " (fields.map (·.printField)) ++ ' ' :: '\x7d' :: s)) := by
    have hopen : chars "\x7b " = ['\x7b', ' '] := rfl
    have hclose : chars " \x7d" = [' ', '\x7d'] := rfl
    rw [ExprKind.print, printObjectFields_eq_map, hopen, hclose]
    simp
  refine .of_mark (List.mem_cons_of_mem _ (List.mem_cons_of_mem _ (List.mem_cons_of_mem _
    List.mem_cons_self))) htext (fun h => absurd h (by decide)) fun s _ _ => ?_
  have heats : Eats 1 (objectField (exprAt .nowhere 0)) := eats_of_keeps_succ fun _ =>
    keeps_objectField (keeps_exprAt (moves_id .nowhere) 0)
  have hend : Refuses (do let _ ← symbol ","; objectField (exprAt .nowhere 0))
      (' ' :: '\x7d' :: s) := ⟨_, rfl⟩
  have hstart : ∀ field ∈ fields, StartsToken field.printField :=
    fun field hfield => startsToken_printField (hnames field hfield)
  have hall := reads_sepBy1 heats hend hne
    (fun field hfield t ht => reads_objectField (hnames field hfield) (hvalues field hfield) ht)
    hstart (fun field _ => stops_brace field.value.kind s)
    (neighbours_of_dropLast fields fun field hfield _ t => stops_comma _ (hlisted field hfield))
  have hjoin := startsToken_joinWith hne hstart
  have hopen (r : List Char) : symbol "\x7b" ('\x7b' :: r) = .done () r := rfl
  have hcomma : optional (symbol ",") (' ' :: '\x7d' :: s) = .done none (' ' :: '\x7d' :: s) := rfl
  have hclose : symbol "\x7d" (' ' :: '\x7d' :: s) = .done () s := rfl
  rw [braces, bind_of_done (hopen _)]
  refine or_of_done ?_
  rw [objectTail, bind_of_done (hall.space hjoin), bind_of_done hcomma, bind_of_done hclose,
    ExprKind.relocate, relocateObjectFields_eq_map]
  rfl

/-- What comes after a statement does not start with `else`. -/
theorem refuses_else_statements {items : List Expr} (hitems : ∀ e ∈ items, e.kind.ReadsBack)
    (s : List Char) : Refuses (keyword "else") (printStatements items ++ ' ' :: '\x7d' :: s) := by
  cases items with
  | nil =>
    refine refuses_keyword_mark (by decide) fun c hc => ?_
    cases hc
    decide
  | cons e es =>
    have he := hitems e List.mem_cons_self
    rw [printStatements_append]
    exact (he.starts_semicolon _).refuses_else (he.skipBlanks_append _)

theorem many_statements {items : List Expr} (hitems : ∀ e ∈ items, e.kind.ReadsBack)
    (s : List Char) :
    many (statement (exprAt .nowhere 0)) (printStatements items ++ ' ' :: '\x7d' :: s) =
      .done (items.map fun e => some (e.relocate fun _ => .null)) (' ' :: '\x7d' :: s) := by
  have hkeeps (n : Nat) : Keeps (Option.map (·.relocate id)) 1 n
      (statement (exprAt .nowhere 0)) (statement (exprAt .nowhere 0)) :=
    keeps_statement (keeps_exprAt (moves_id .nowhere) 0)
  induction items with
  | nil =>
    have hvalue : Refuses (exprAt .nowhere 0) (' ' :: '\x7d' :: s) :=
      refuses_value (s := s) rfl (by decide)
    have hnone : Refuses (statement (exprAt .nowhere 0)) (' ' :: '\x7d' :: s) :=
      hvalue.bind.or ⟨_, rfl⟩
    exact hnone.many_eq
  | cons e es ih =>
    have hrest : ∀ e ∈ es, e.kind.ReadsBack := fun e he => hitems e (List.mem_cons_of_mem _ he)
    have he := (hitems e List.mem_cons_self).space
      (stops_semicolon e.kind (refuses_else_statements hrest s))
    have hsemicolon (r : List Char) : optional (symbol ";") (';' :: r) = .done (some ()) r := rfl
    refine many_of_done (Keeps.eats_left hkeeps) (or_of_done ?_) (ih hrest)
    rw [printStatements_append, bind_of_done he, bind_of_done (hsemicolon _)]
    rfl

theorem baseBack_block {items : List Expr} (hitems : ∀ e ∈ items, e.kind.ReadsBack) :
    (ExprKind.block items).BaseBack := by
  have htext (s : List Char) : (ExprKind.block items).print ++ s =
      '\x7b' :: (printStatements items ++ ' ' :: '\x7d' :: s) := by
    have hclose : chars " \x7d" = [' ', '\x7d'] := rfl
    simp [ExprKind.print, hclose]
  refine .of_mark (List.mem_cons_of_mem _ (List.mem_cons_of_mem _ (List.mem_cons_of_mem _
    List.mem_cons_self))) htext (fun h => absurd h (by decide)) fun s _ _ => ?_
  have hobject : Refuses (objectField (exprAt .nowhere 0))
      (printStatements items ++ ' ' :: '\x7d' :: s) := by
    cases items with
    | nil => exact ⟨_, rfl⟩
    | cons e es =>
      have he := hitems e List.mem_cons_self
      rw [printStatements_append]
      exact (he.starts_semicolon _).refuses_objectField (he.skipBlanks_append _) _
  have hopen (r : List Char) : symbol "\x7b" ('\x7b' :: r) = .done () r := rfl
  have hclose : symbol "\x7d" (' ' :: '\x7d' :: s) = .done () s := rfl
  rw [braces, bind_of_done (hopen _)]
  refine hobject.bind.bind.or_eq.trans ?_
  rw [blockTail, bind_of_done (many_statements hitems s), bind_of_done hclose, ExprKind.relocate,
    relocateExprs_eq_map, List.filterMap_map]
  simp

/-! ## Metadata -/

/-- The arguments of an entry stand behind its name without a blank, if there are any. -/
theorem reads_entryArgs {args : List Expr} (hargs : ∀ e ∈ args, e.kind.ReadsBack)
    (hlisted : ∀ e ∈ args.dropLast, e.kind.endsWith isDeclaration = false) (s : List Char) :
    ∃ r, (∀ name pos, Metadata.print ⟨name, args, pos⟩ ++ ' ' :: s = '@' :: (chars name ++ r)) ∧
      Breaks r ∧ ∃ args? : Option (List Expr),
        args?.getD [] = relocateExprs (fun _ => .null) args ∧
        optional (do text "("; argumentsTail (exprAt .nowhere 0)) r = .done args? (' ' :: s) := by
  cases args with
  | nil =>
    refine ⟨' ' :: s, fun name pos => ?_, breaks_space s, none, rfl, ?_⟩
    · simp [Metadata.print]
    · exact Refuses.optional_eq (Refuses.bind ⟨_, rfl⟩)
  | cons a as =>
    refine ⟨'(' :: (joinWith ", " (printExprs (a :: as)) ++ ')' :: ' ' :: s), fun name pos => ?_,
      breaks_mark _ (by decide), _, rfl, optional_of_done ?_⟩
    · simp [Metadata.print, printExprs]
    · have hopen (r : List Char) : text "(" ('(' :: r) = .done () r := text_append "(" r
      rw [bind_of_done (hopen _), reads_argumentsTail hargs hlisted]
      rfl

theorem reads_metadata {entry : Metadata} (hnamed : entry.IsNamed)
    (hargs : ∀ e ∈ entry.args, e.kind.ReadsBack)
    (hlisted : ∀ e ∈ entry.args.dropLast, e.kind.endsWith isDeclaration = false) (s : List Char) :
    metadata .nowhere (exprAt .nowhere 0) (entry.print ++ ' ' :: s) =
      .done (entry.relocate fun _ => .null) (' ' :: s) := by
  obtain ⟨entryName, args, pos⟩ := entry
  obtain ⟨word, hword, hname⟩ := hnamed
  obtain ⟨r, htext, hbreaks, args?, hvalue, hread⟩ := reads_entryArgs hargs hlisted s
  have hblanks (r : List Char) : blanks ('@' :: r) = .done () ('@' :: r) := rfl
  have hat (r : List Char) : text "@" ('@' :: r) = .done () r := text_append "@" r
  have hcolon : ∃ colon, present (text ":") (chars entryName ++ r) = .done colon (chars word ++ r) ∧
      (if colon then ":" ++ word else word) = entryName := by
    rcases hname with rfl | rfl
    · have hhead := hword.head_ne (d := ':') (by decide) r
      exact ⟨false, Refuses.present_eq (refuses_text (c := ':') (w := []) rfl hhead), rfl⟩
    · refine ⟨true, present_of_done (a := ()) ?_, rfl⟩
      have hchars : chars (":" ++ word) ++ r = chars ":" ++ (chars word ++ r) := by
        simp [chars]
      rw [hchars, text_append]
  obtain ⟨colon, hcolon, heq⟩ := hcolon
  rw [htext, metadata, bind_of_done (hblanks _), bind_of_done (here_apply _), bind_of_done (hat _),
    bind_of_done hcolon, bind_of_done (name_append hword hbreaks), bind_of_done hread,
    bind_of_done (here_apply _), Source.span_nowhere, hvalue, heq]
  rfl

theorem baseBack_annotated {entry : Metadata} (hnamed : entry.IsNamed)
    (hargs : ∀ e ∈ entry.args, e.kind.ReadsBack)
    (hlisted : ∀ e ∈ entry.args.dropLast, e.kind.endsWith isDeclaration = false)
    (he : e.kind.ReadsBack) : (ExprKind.annotated entry e).BaseBack := by
  obtain ⟨r, hprint⟩ : ∃ r, entry.print = '@' :: r := by
    obtain ⟨name, args, pos⟩ := entry
    cases args <;> exact ⟨_, rfl⟩
  have htext (s : List Char) : (ExprKind.annotated entry e).print ++ s =
      '@' :: (r ++ ' ' :: (e.kind.print ++ s)) := by
    simp [ExprKind.print, Expr.print_eq, hprint]
  refine .of_mark List.mem_cons_self htext (fun h => absurd h (by decide)) fun s hs hsuffix => ?_
  rw [← List.cons_append, ← hprint, metaExpr, bind_of_done (reads_metadata hnamed hargs hlisted _),
    bind_of_done (he.space (hs.stops_last rfl rfl (hsuffix (Option.some_ne_none _))))]
  rfl

/-! ## Keywords -/

theorem keyword_space (word : String) (h : word ∈ reserved) (s : List Char) :
    keyword word (chars word ++ ' ' :: s) = .done () (' ' :: s) := keyword_append h (breaks_space s)

theorem keyword_between (word : String) (h : word ∈ reserved) (s : List Char) :
    keyword word (' ' :: (chars word ++ ' ' :: s)) = .done () (' ' :: s) :=
  (keyword_eq_of_skipBlanks word (skipBlanks_space _)).trans (keyword_space word h s)

section

variable {kind : ExprKind} (word : String) {p : Parser ExprKind} (i : Nat)
  (hp : (keywordForms .nowhere (exprAt .nowhere 0) (tightExpr .nowhere))[i]? = some p)
  (hword : word ∈ reserved.erase "else") (hbefore : ∀ words ∈ formWords.take i, word ∉ words)
include hp hword hbefore

theorem BaseBack.of_word (hprint : kind.print = chars word)
    (h : ∀ s, kind.Fits s → keyword word (chars word ++ s) = .done () s →
      p (chars word ++ s) = .done (kind.relocate fun _ => .null) s) : kind.BaseBack := by
  have htext (s : List Char) : kind.print ++ s = chars word ++ s := by rw [hprint]
  refine .of_keyword i hp hword hbefore htext (fun _ h => h) (fun _ h => h) fun s hs _ => ?_
  exact h s hs (keyword_append (List.mem_of_mem_erase hword) hs.breaks)

theorem BaseBack.of_keywordBefore (he : e.kind.ReadsBack) (hlast : kind.lastPart = some e)
    (hgreedy : kind.isGreedy = true) (hprint : kind.print = chars word ++ ' ' :: e.print)
    (h : ∀ s, keyword word (chars word ++ ' ' :: (e.kind.print ++ s)) =
        .done () (' ' :: (e.kind.print ++ s)) →
      exprAt .nowhere 0 (' ' :: (e.kind.print ++ s)) = .done (e.relocate fun _ => .null) s →
      p (chars word ++ ' ' :: (e.kind.print ++ s)) = .done (kind.relocate fun _ => .null) s) :
    kind.BaseBack := by
  have htext (s : List Char) : kind.print ++ s = chars word ++ ' ' :: (e.kind.print ++ s) := by
    rw [hprint, e.print_eq, List.append_assoc, List.cons_append]
  refine .of_keyword i hp hword hbefore htext (fun _ _ => breaks_space _) (fun s _ => he.noColon s)
    fun s hs hsuffix => ?_
  have hstops := hs.stops_last hlast hgreedy (hsuffix (by rw [hlast]; exact Option.some_ne_none e))
  exact h s (keyword_space word (List.mem_of_mem_erase hword) _) (he.space hstops)

end

theorem baseBack_brk : ExprKind.brk.BaseBack :=
  .of_word "break" 11 rfl (by decide) (by decide) rfl fun _ _ hword => bind_of_done hword

theorem baseBack_cont : ExprKind.cont.BaseBack :=
  .of_word "continue" 12 rfl (by decide) (by decide) rfl fun _ _ hword => bind_of_done hword

theorem baseBack_bareReturn : (ExprKind.ret none).BaseBack := by
  refine .of_word "return" 8 rfl (by decide) (by decide) rfl fun s hs hword => ?_
  have hvalue := hs.value (endsWith_self rfl)
  rw [bind_of_done hword, bind_of_done hvalue.optional_eq]
  rfl

theorem baseBack_return (he : e.kind.ReadsBack) : (ExprKind.ret (some e)).BaseBack := by
  refine .of_keywordBefore "return" 8 rfl (by decide) (by decide) he rfl rfl rfl
    fun s hword hvalue => ?_
  rw [bind_of_done hword, bind_of_done (optional_of_done hvalue)]
  rfl

theorem baseBack_throw (he : e.kind.ReadsBack) : (ExprKind.throw e).BaseBack := by
  refine .of_keywordBefore "throw" 9 rfl (by decide) (by decide) he rfl rfl rfl
    fun s hword hvalue => ?_
  rw [bind_of_done hword, bind_of_done hvalue]
  rfl

theorem baseBack_untyped (he : e.kind.ReadsBack) : (ExprKind.untyped e).BaseBack := by
  refine .of_keywordBefore "untyped" 10 rfl (by decide) (by decide) he rfl rfl rfl
    fun s hword hvalue => ?_
  rw [bind_of_done hword, bind_of_done hvalue]
  rfl

/-! ### Conditionals and loops -/

variable {test : Expr}

theorem baseBack_cond {yes : Expr} (htest : test.kind.ReadsBack) (hyes : yes.kind.ReadsBack) :
    (ExprKind.cond test yes none).BaseBack := by
  have htext (s : List Char) : (ExprKind.cond test yes none).print ++ s =
      chars "if" ++ ' ' :: '(' :: (test.kind.print ++ ')' :: ' ' :: (yes.kind.print ++ s)) := by
    have hopen : chars "if (" = chars "if" ++ [' ', '('] := rfl
    have hclose : chars ") " = [')', ' '] := rfl
    simp [ExprKind.print, Expr.print_eq, hopen, hclose]
  refine .of_keyword 2 rfl (by decide) (by decide) htext (fun _ _ => breaks_space _)
    (fun _ _ => ⟨_, rfl⟩) fun s hs hsuffix => ?_
  have hword (r : List Char) := keyword_space "if" (by decide) r
  have hno : Refuses (elsePart .nowhere) s := hs.ends.elseless (endsWith_self rfl)
  rw [ifExpr, bind_of_done (hword _), bind_of_done (reads_condition htest _),
    bind_of_done (hyes.space (hs.stops_last rfl rfl (hsuffix (Option.some_ne_none _))))]
  exact bind_of_done hno.optional_eq

theorem baseBack_condElse {yes no : Expr} (htest : test.kind.ReadsBack)
    (hyes : yes.kind.ReadsBack) (hown : yes.kind.endsWith isElseless = false)
    (hno : no.kind.ReadsBack) : (ExprKind.cond test yes (some no)).BaseBack := by
  have htext (s : List Char) : (ExprKind.cond test yes (some no)).print ++ s =
      chars "if" ++ ' ' :: '(' :: (test.kind.print ++ ')' :: ' ' ::
        (yes.kind.print ++ ' ' :: (chars "else" ++ ' ' :: (no.kind.print ++ s)))) := by
    have hopen : chars "if (" = chars "if" ++ [' ', '('] := rfl
    have hclose : chars ") " = [')', ' '] := rfl
    have helse : chars " else " = ' ' :: (chars "else" ++ [' ']) := rfl
    simp [ExprKind.print, Expr.print_eq, hopen, hclose, helse]
  refine .of_keyword 2 rfl (by decide) (by decide) htext (fun _ _ => breaks_space _)
    (fun _ _ => ⟨_, rfl⟩) fun s hs hsuffix => ?_
  have hword (r : List Char) := keyword_space "if" (by decide) r
  have helse (r : List Char) := keyword_between "else" (by decide) r
  have hpart : elsePart .nowhere (' ' :: (chars "else" ++ ' ' :: (no.kind.print ++ s))) =
      .done (no.relocate fun _ => .null) s := by
    have hsemicolon (r : List Char) : optional (symbol ";") (' ' :: (chars "else" ++ r)) =
        .done none (' ' :: (chars "else" ++ r)) := rfl
    rw [elsePart, bind_of_done (hsemicolon _), bind_of_done (helse _),
      hno.space (hs.stops_last rfl rfl (hsuffix (Option.some_ne_none _)))]
  rw [ifExpr, bind_of_done (hword _), bind_of_done (reads_condition htest _),
    bind_of_done (hyes.space (stops_else _ hown))]
  exact bind_of_done (optional_of_done hpart)

theorem baseBack_while {body : Expr} (htest : test.kind.ReadsBack) (hbody : body.kind.ReadsBack) :
    (ExprKind.loop test body true).BaseBack := by
  have htext (s : List Char) : (ExprKind.loop test body true).print ++ s =
      chars "while" ++ ' ' :: '(' :: (test.kind.print ++ ')' :: ' ' :: (body.kind.print ++ s)) := by
    have hopen : chars "while (" = chars "while" ++ [' ', '('] := rfl
    have hclose : chars ") " = [')', ' '] := rfl
    simp [ExprKind.print, Expr.print_eq, hopen, hclose]
  refine .of_keyword 3 rfl (by decide) (by decide) htext (fun _ _ => breaks_space _)
    (fun _ _ => ⟨_, rfl⟩) fun s hs hsuffix => ?_
  have hword (r : List Char) := keyword_space "while" (by decide) r
  rw [whileExpr, bind_of_done (hword _), bind_of_done (reads_condition htest _),
    bind_of_done (hbody.space (hs.stops_last rfl rfl (hsuffix (Option.some_ne_none _))))]
  rfl

theorem baseBack_doWhile {body : Expr} (htest : test.kind.ReadsBack)
    (hbody : body.kind.ReadsBack) (hvalue : body.kind.endsWith isBareReturn = false) :
    (ExprKind.loop test body false).BaseBack := by
  have htext (s : List Char) : (ExprKind.loop test body false).print ++ s =
      chars "do" ++ ' ' :: (body.kind.print ++
        ' ' :: (chars "while" ++ ' ' :: '(' :: (test.kind.print ++ ')' :: s))) := by
    have hdo : chars "do " = chars "do" ++ [' '] := rfl
    have hwhile : chars " while (" = ' ' :: (chars "while" ++ [' ', '(']) := rfl
    simp [ExprKind.print, Expr.print_eq, hdo, hwhile]
  refine .of_keyword 4 rfl (by decide) (by decide) htext (fun _ _ => breaks_space _)
    (fun s _ => hbody.noColon _) fun s hs hsuffix => ?_
  have hword (r : List Char) := keyword_space "do" (by decide) r
  have hsemicolon (r : List Char) : optional (symbol ";") (' ' :: (chars "while" ++ r)) =
      .done none (' ' :: (chars "while" ++ r)) := rfl
  have hwhile (r : List Char) := keyword_between "while" (by decide) r
  rw [doWhileExpr, bind_of_done (hword _), bind_of_done (hbody.space (stops_while _ hvalue)),
    bind_of_done (hsemicolon _), bind_of_done (hwhile _), bind_of_done (reads_condition htest _)]
  rfl

theorem baseBack_forIn {name : String} {range body : Expr} (place pos : Position)
    (hname : IsIdentifier name) (hrange : range.kind.ReadsBack) (hbody : body.kind.ReadsBack) :
    (ExprKind.forIn ⟨.binary .isIn (.ident name place) range, pos⟩ body).BaseBack := by
  have htext (s : List Char) :
      (ExprKind.forIn ⟨.binary .isIn (.ident name place) range, pos⟩ body).print ++ s =
        chars "for" ++ ' ' :: '(' :: (chars name ++ ' ' :: (chars "in" ++ ' ' ::
          (range.kind.print ++ ')' :: ' ' :: (body.kind.print ++ s)))) := by
    have hopen : chars "for (" = chars "for" ++ [' ', '('] := rfl
    have hclose : chars ") " = [')', ' '] := rfl
    have hident : (Expr.ident name place).print = chars name := rfl
    have hin : BinaryOp.isIn.symbol = "in" := rfl
    simp [ExprKind.print, Expr.print_eq ⟨_, pos⟩, Expr.print_eq range, Expr.print_eq body, hident,
      hopen, hclose, hin]
  refine .of_keyword 5 rfl (by decide) (by decide) htext (fun _ _ => breaks_space _)
    (fun _ _ => ⟨_, rfl⟩) fun s hs hsuffix => ?_
  have hword (r : List Char) := keyword_space "for" (by decide) r
  have hopen (r : List Char) : symbol "(" (' ' :: '(' :: r) = .done () r := rfl
  have hblanks (r : List Char) : blanks (chars name ++ r) = .done () (chars name ++ r) := by
    rw [blanks, hname.isName.skipBlanks_append]
  have hread (r : List Char) := identifier_append hname.isName hname.free (breaks_space r)
  have hin (r : List Char) := keyword_between "in" (by decide) r
  have hclose (r : List Char) : symbol ")" (')' :: r) = .done () r := rfl
  rw [forExpr, bind_of_done (hword _), bind_of_done (hopen _), bind_of_done (hblanks _),
    bind_of_done (here_apply _), bind_of_done (hread _), bind_of_done (here_apply _),
    Source.span_nowhere, bind_of_done (hin _),
    bind_of_done (hrange.space (stops_bracket _ _ (Or.inl rfl))), bind_of_done (hclose _),
    bind_of_done (hbody.space (hs.stops_last rfl rfl (hsuffix (Option.some_ne_none _))))]
  cases range
  rfl

/-! ### Types and casts -/

theorem baseBack_new {path : TypePath} {args : List Expr} (hpath : path.Written)
    (hargs : ∀ arg ∈ args, arg.kind.ReadsBack)
    (hlisted : ∀ arg ∈ args.dropLast, arg.kind.endsWith isDeclaration = false) :
    (ExprKind.new path args).BaseBack := by
  have htext (s : List Char) : (ExprKind.new path args).print ++ s = chars "new" ++ ' ' ::
      (path.print ++ '(' :: (joinWith ", " (printExprs args) ++ ')' :: s)) := by
    have hnew : chars "new " = chars "new" ++ [' '] := rfl
    simp [ExprKind.print, hnew]
  have hstart : StartsToken path.print := ComplexType.Written.start hpath
  have hcolon (s : List Char) : Refuses (symbol ":") (' ' :: (path.print ++ s)) := by
    obtain ⟨c, hc, hstarts⟩ := ComplexType.Written.head hpath
    refine refuses_symbol_head (c := ':') (w := []) rfl fun d hd => ?_
    rw [skipBlanks_space, hstart.skipBlanks_append, List.head?_append] at hd
    have hhead : path.print.head? = some c := hc
    rw [hhead] at hd
    cases hd
    rintro rfl
    exact absurd hstarts (by decide)
  refine .of_keyword 6 rfl (by decide) (by decide) htext (fun _ _ => breaks_space _)
    (fun _ _ => hcolon _) fun s _ _ => ?_
  have hword (r : List Char) := keyword_space "new" (by decide) r
  have hread (r : List Char) := (hpath.reads (s := '(' :: r)
    (atomEnds_mark r (by decide) (by decide) (by decide))).append hstart
  rw [newExpr, bind_of_done (hword _), bind_of_done (hstart.blanks_space _), bind_of_done (hread _),
    bind_of_done (reads_arguments hargs hlisted s)]
  rfl

theorem baseBack_castTo {type : ComplexType} (he : e.kind.ReadsBack)
    (hlisted : e.kind.endsWith isDeclaration = false) (htype : type.Written) :
    (ExprKind.cast e (some type)).BaseBack := by
  have htext (s : List Char) : (ExprKind.cast e (some type)).print ++ s = chars "cast" ++ '(' ::
      (e.kind.print ++ ',' :: ' ' :: (type.print ++ ')' :: s)) := by
    have hopen : chars "cast(" = chars "cast" ++ ['('] := rfl
    have hcomma : chars ", " = [',', ' '] := rfl
    simp [ExprKind.print, Expr.print_eq, hopen, hcomma]
  have hbreaks (r : List Char) : Breaks ('(' :: r) := breaks_mark _ (by decide)
  refine .of_keyword 7 rfl (by decide) (by decide) htext (fun _ _ => hbreaks _)
    (fun _ _ => ⟨_, rfl⟩) fun s _ _ => ?_
  have hword (r : List Char) : keyword "cast" (chars "cast" ++ '(' :: r) = .done () ('(' :: r) :=
    keyword_append (by decide) (hbreaks r)
  have hopen (r : List Char) : symbol "(" ('(' :: r) = .done () r := rfl
  have hcomma (r : List Char) : symbol "," (',' :: r) = .done () r := rfl
  have htype' := (htype.readsBack.2 _ (typeEnds_of_mem (c := ')') s (by decide))).append htype.start
  have hclose : symbol ")" (')' :: s) = .done () s := rfl
  have hpair : castPair ('(' :: (e.kind.print ++ ',' :: ' ' :: (type.print ++ ')' :: s))) =
      .done (.cast (e.relocate fun _ => .null) (some type.unplaced)) s := by
    rw [castPair, bind_of_done (hopen _), bind_of_done (he.here (stops_comma _ hlisted)),
      bind_of_done (hcomma _), bind_of_done (htype.start.blanks_space _), bind_of_done htype',
      bind_of_done hclose]
    rfl
  rw [castExpr, bind_of_done (hword _)]
  exact bind_of_done (optional_of_done hpair)

theorem baseBack_cast (he : e.kind.TightBack) (hop : e.kind.IsOperand) :
    (ExprKind.cast e none).BaseBack := by
  have htext (s : List Char) : (ExprKind.cast e none).print ++ s =
      chars "cast" ++ ' ' :: (e.kind.print ++ s) := by
    have hcast : chars "cast " = chars "cast" ++ [' '] := rfl
    simp [ExprKind.print, Expr.print_eq, hcast]
  have hskip (s : List Char) : skipBlanks (' ' :: (e.kind.print ++ s)) = e.kind.print ++ s :=
    he.skipBlanks_append s
  refine .of_keyword 7 rfl (by decide) (by decide) htext (fun _ _ => breaks_space _)
    (fun s _ => he.refuses_symbol (c := ':') (w := []) rfl (by decide) (hskip s))
    fun s hs hsuffix => ?_
  have hword := keyword_space "cast" (by decide) (e.kind.print ++ s)
  have hpair := he.notPair hop s _ (hskip s)
  have hread := he.tight s (hs.last rfl) (hsuffix (Option.some_ne_none _)) _ (hskip s)
  rw [castExpr, bind_of_done hword]
  refine (bind_of_done hpair.optional_eq).trans ?_
  dsimp only
  rw [bind_of_done hread, ← Expr.relocate_null]
  rfl

/-! ### Declarations -/

/-- What may follow a variable or a parameter: something that ends its value or, without a value,
its type. -/
structure InitEnds (init : Option Expr) (s : List Char) : Prop where
  value : ∀ e ∈ init, e.kind.Stops s
  bare : init = none → TypeEnds s ∧ Refuses (symbol ":") s ∧ Refuses (symbol "=") s

theorem printDefault_some (e : Expr) (s : List Char) :
    printDefault (some e) ++ s = ' ' :: '=' :: ' ' :: (e.kind.print ++ s) := by
  have hequals : chars " = " = [' ', '=', ' '] := rfl
  simp [printDefault, Expr.print_eq, hequals]

theorem reads_hint {type : Option ComplexType} (htype : ∀ t ∈ type, t.Written) {s : List Char}
    (hs : TypeEnds s) (hcolon : Refuses (symbol ":") s) :
    optional (typeHint (complexType .nowhere)) (printHint type ++ s) =
        .done (relocateOptionType (fun _ => .null) type) s ∧ Breaks (printHint type ++ s) := by
  cases type with
  | none => exact ⟨hcolon.bind.optional_eq, hs.breaks⟩
  | some t =>
    have ht := htype t rfl
    refine ⟨optional_of_done ?_, breaks_mark _ (by decide)⟩
    have hmark (r : List Char) : symbol ":" (':' :: r) = .done () r := rfl
    rw [typeHint, printHint, List.cons_append, bind_of_done (hmark _),
      (ht.readsBack.2 s hs).append ht.start]
    rfl

/-- The type of a variable or a parameter, before its value or what follows. -/
theorem InitEnds.reads_hint {type : Option ComplexType} (htype : ∀ t ∈ type, t.Written)
    {init : Option Expr} {s : List Char} (hs : InitEnds init s) :
    optional (typeHint (complexType .nowhere)) (printHint type ++ (printDefault init ++ s)) =
        .done (relocateOptionType (fun _ => .null) type) (printDefault init ++ s) ∧
      Breaks (printHint type ++ (printDefault init ++ s)) := by
  cases init with
  | none =>
    obtain ⟨htypeEnds, hcolon, -⟩ := hs.bare rfl
    exact ExprKind.reads_hint htype htypeEnds hcolon
  | some e =>
    rw [printDefault_some]
    refine ExprKind.reads_hint htype (typeEnds_space rfl ?_ ⟨_, rfl⟩) ⟨_, rfl⟩
    rintro c hc
    cases hc
    decide

theorem InitEnds.reads_init {p : Parser Expr} {init : Option Expr} {s : List Char}
    (hs : InitEnds init s) (hinit : ∀ e ∈ init, e.kind.ReadsBack)
    (hp : ∀ r, p (' ' :: '=' :: ' ' :: r) = exprAt .nowhere 0 (' ' :: r))
    (hnone : Refuses (symbol "=") s → Refuses p s) :
    optional p (printDefault init ++ s) = .done (relocateOption (fun _ => .null) init) s := by
  cases init with
  | none => exact (hnone (hs.bare rfl).2.2).optional_eq
  | some e =>
    refine optional_of_done ?_
    rw [printDefault_some, hp, (hinit e rfl).space (hs.value e rfl)]

theorem reads_varDecl {v : Var} {isFinal isStatic : Bool} (hv : v.IsDeclared isFinal isStatic)
    (hinit : ∀ e ∈ v.init, e.kind.ReadsBack) {s : List Char} (hs : InitEnds v.init s) :
    Reads (varDecl .nowhere (exprAt .nowhere 0) isFinal isStatic) v.printDecl
      (v.relocate fun _ => .null) s := by
  intro t ht
  obtain ⟨name, type, init, vFinal, vStatic, annotations⟩ := v
  obtain ⟨hname, htype, rfl, rfl, rfl⟩ := hv
  obtain ⟨hhint, hbreaks⟩ := hs.reads_hint htype
  rw [Var.printDecl, List.append_assoc, List.append_assoc] at ht
  have hread : identifier t = .done name (printHint type ++ (printDefault init ++ s)) := by
    rw [identifier_of_name (by rw [ht]; exact name_append hname.isName hbreaks), hname.free]
    rfl
  have hdefault := hs.reads_init
    (p := do symbol "="; lacks (char fun c => c == '=' || c == '>'); exprAt .nowhere 0) hinit
    (fun _ => rfl) fun h => h.bind
  rw [varDecl, bind_of_done hread, bind_of_done hhint, bind_of_done hdefault]
  rfl

theorem reads_param {p : Param} (hp : p.IsDeclared) (hdefault : ∀ e ∈ p.default, e.kind.ReadsBack)
    {s : List Char} (hs : InitEnds p.default s) :
    Reads (param .nowhere (exprAt .nowhere 0)) p.printDecl (p.relocate fun _ => .null) s := by
  intro t ht
  obtain ⟨name, isOptional, type, default, annotations⟩ := p
  obtain ⟨hname, htype, rfl⟩ := hp
  obtain ⟨hhint, hbreaks⟩ := hs.reads_hint htype
  rw [Param.printDecl, List.append_assoc, List.append_assoc, List.append_assoc] at ht
  obtain ⟨r, hmark, hr⟩ : ∃ r, present (symbol "?") t = .done isOptional r ∧
      skipBlanks r = chars name ++ (printHint type ++ (printDefault default ++ s)) := by
    cases isOptional with
    | true => exact ⟨_, present_of_done (reads_symbol "?" _ t ht), hname.isName.skipBlanks_append _⟩
    | false =>
      refine ⟨t, Refuses.present_eq (refuses_symbol_head (c := '?') (w := []) rfl ?_), ht⟩
      rw [ht]
      exact hname.isName.head_ne (by decide) _
  have hread : identifier r = .done name (printHint type ++ (printDefault default ++ s)) := by
    rw [identifier_of_name (by rw [hr]; exact name_append hname.isName hbreaks), hname.free]
    rfl
  have hinit := hs.reads_init (p := do symbol "="; exprAt .nowhere 0) hdefault (fun _ => rfl)
    fun h => h.bind
  rw [param, bind_of_done hmark, bind_of_done hread, bind_of_done hhint, bind_of_done hinit]
  rfl

theorem InitEnds.comma {init : Option Expr}
    (h : ∀ e ∈ init, e.kind.endsWith isDeclaration = false) (s : List Char) :
    InitEnds init (',' :: s) :=
  ⟨fun e he => stops_comma s (h e he), fun _ => ⟨typeEnds_comma s, ⟨_, rfl⟩, ⟨_, rfl⟩⟩⟩

theorem InitEnds.paren (init : Option Expr) (s : List Char) : InitEnds init (')' :: s) :=
  ⟨fun e _ => stops_bracket e.kind s (Or.inl rfl),
    fun _ => ⟨typeEnds_of_mem s (by decide), ⟨_, rfl⟩, ⟨_, rfl⟩⟩⟩

theorem startsToken_printDecl {v : Var} {isFinal isStatic : Bool}
    (hv : v.IsDeclared isFinal isStatic) : StartsToken v.printDecl := by
  rw [Var.printDecl, List.append_assoc]
  exact hv.name.isName.startsToken.append _

theorem varWord_append (isFinal : Bool) (s : List Char) :
    varWord (chars (if isFinal then "final" else "var") ++ ' ' :: s) =
      .done isFinal (' ' :: s) := by
  cases isFinal with
  | false =>
    have hword : keyword "var" (chars "var" ++ ' ' :: s) = .done () (' ' :: s) :=
      keyword_space _ (by decide) s
    exact or_of_done (bind_of_done hword)
  | true =>
    have hvar : Refuses (keyword "var") (chars "final" ++ ' ' :: s) :=
      refuses_keyword (by decide) (isName_of_mem_reserved _ (by decide)) (breaks_space s)
        (by decide)
    have hword : keyword "final" (chars "final" ++ ' ' :: s) = .done () (' ' :: s) :=
      keyword_space _ (by decide) s
    exact hvar.bind.or_eq.trans (bind_of_done hword)

theorem varWord_space (s : List Char) : varWord (' ' :: s) = varWord s := by
  simp only [varWord, Parser.or, bind_apply, keyword_eq_of_skipBlanks _ (skipBlanks_space s)]

theorem reads_vars {vs : List Var} {isFinal isStatic : Bool} (hne : vs ≠ [])
    (hshape : ∀ v ∈ vs, v.IsDeclared isFinal isStatic)
    (hinits : ∀ v ∈ vs, ∀ e ∈ v.init, e.kind.ReadsBack)
    (hlisted : ∀ v ∈ vs.dropLast, ∀ e ∈ v.init, e.kind.endsWith isDeclaration = false)
    {s : List Char} (hs : (ExprKind.vars vs).Fits s)
    (hsuffix : (ExprKind.vars vs).lastPart ≠ none → NoSuffix .nowhere s) :
    Reads (sepBy1 (varDecl .nowhere (exprAt .nowhere 0) isFinal isStatic) (symbol ","))
      (joinWith ", " (vs.map (·.printDecl))) (vs.map (·.relocate fun _ => .null)) s := by
  have hends := hs.declared (endsWith_self rfl)
  have heats : Eats 1 (varDecl .nowhere (exprAt .nowhere 0) isFinal isStatic) :=
    eats_of_keeps_succ fun _ =>
      keeps_varDecl (moves_id .nowhere) (keeps_exprAt (moves_id .nowhere) 0) isFinal isStatic
  have hstart : ∀ v ∈ vs, StartsToken v.printDecl := fun v hv => startsToken_printDecl (hshape v hv)
  have hlast : ∀ v ∈ vs.getLast?, InitEnds v.init s := by
    intro v hv
    refine ⟨fun e he => ?_, fun _ => ⟨hends.toTypeEnds, hends.noHint, hends.noInit⟩⟩
    have hpart : (ExprKind.vars vs).lastPart = some e := by
      rw [lastPart, Option.mem_def.mp hv]
      exact he
    exact ⟨hs.last hpart, hends.blocked, hsuffix (by rw [hpart]; exact Option.some_ne_none e)⟩
  exact reads_sepBy1 heats hends.noOther.bind hne
    (fun v hv t ht => reads_varDecl (hshape v hv) (hinits v hv) ht) hstart hlast
    (neighbours_of_dropLast vs fun v hv _ t => InitEnds.comma (hlisted v hv) _)

theorem print_vars_append {vs : List Var} {isFinal isStatic : Bool} (hne : vs ≠ [])
    (hshape : ∀ v ∈ vs, v.IsDeclared isFinal isStatic) (s : List Char) :
    (ExprKind.vars vs).print ++ s =
      chars (if isStatic then "static " else "") ++ (chars (if isFinal then "final" else "var") ++
        ' ' :: (joinWith ", " (vs.map (·.printDecl)) ++ s)) := by
  obtain ⟨v, vs, rfl⟩ := List.exists_cons_of_ne_nil hne
  have hv := hshape v List.mem_cons_self
  have hwords : v.words = chars (if isStatic then "static " else "") ++
      (chars (if isFinal then "final" else "var") ++ [' ']) := by
    rw [Var.words, hv.isStatic, hv.isFinal]
    cases isStatic <;> cases isFinal <;> rfl
  rw [ExprKind.print, printVars_eq_map, hwords]
  simp

theorem baseBack_vars {vs : List Var} {isFinal isStatic : Bool} (hne : vs ≠ [])
    (hshape : ∀ v ∈ vs, v.IsDeclared isFinal isStatic)
    (hinits : ∀ v ∈ vs, ∀ e ∈ v.init, e.kind.ReadsBack)
    (hlisted : ∀ v ∈ vs.dropLast, ∀ e ∈ v.init, e.kind.endsWith isDeclaration = false) :
    (ExprKind.vars vs).BaseBack := by
  have hprint := print_vars_append hne hshape
  have hjoin := startsToken_joinWith hne fun v hv => startsToken_printDecl (hshape v hv)
  have hvars (s : List Char) (hs : (ExprKind.vars vs).Fits s)
      (hsuffix : (ExprKind.vars vs).lastPart ≠ none → NoSuffix .nowhere s) :=
    (reads_vars hne hshape hinits hlisted hs hsuffix).space hjoin
  have hcolon (s : List Char) : Refuses (symbol ":")
      (' ' :: (joinWith ", " (vs.map (·.printDecl)) ++ s)) := by
    obtain ⟨v, vs, rfl⟩ := List.exists_cons_of_ne_nil hne
    have hname := (hshape v List.mem_cons_self).name.isName
    refine refuses_symbol_head (c := ':') (w := []) rfl ?_
    rw [skipBlanks_space, hjoin.skipBlanks_append, List.map_cons, joinWith_cons, Var.printDecl]
    simp only [List.append_assoc]
    exact hname.head_ne (by decide) _
  cases isStatic with
  | false =>
    have hword : (if isFinal then "final" else "var") ∈ reserved.erase "else" := by
      cases isFinal <;> decide
    refine .of_keyword 0 rfl hword (fun _ h => absurd h List.not_mem_nil) hprint
      (fun _ _ => breaks_space _) (fun s _ => hcolon s) fun s hs hsuffix => ?_
    have hstatic : Refuses (keyword "static") (chars (if isFinal then "final" else "var") ++ ' ' ::
        (joinWith ", " (vs.map (·.printDecl)) ++ s)) :=
      refuses_keyword (by decide) (isName_of_mem_reserved _ (List.mem_of_mem_erase hword))
        (breaks_space _) (by cases isFinal <;> decide)
    rw [varExpr, bind_of_done hstatic.present_eq, bind_of_done (varWord_append isFinal _),
      bind_of_done (hvars s hs hsuffix), ExprKind.relocate, relocateVars_eq_map]
    rfl
  | true =>
    have htext (s : List Char) : (ExprKind.vars vs).print ++ s = chars "static" ++ ' ' ::
        (chars (if isFinal then "final" else "var") ++ ' ' ::
          (joinWith ", " (vs.map (·.printDecl)) ++ s)) := hprint s
    refine .of_keyword 0 rfl (by decide) (fun _ h => absurd h List.not_mem_nil) htext
      (fun _ _ => breaks_space _) (fun s _ => ?_) fun s hs hsuffix => ?_
    · cases isFinal <;> exact ⟨_, rfl⟩
    · have hstatic (r : List Char) : keyword "static" (chars "static" ++ ' ' :: r) =
          .done () (' ' :: r) := keyword_space _ (by decide) r
      rw [varExpr, bind_of_done (present_of_done (hstatic _)),
        bind_of_done ((varWord_space _).trans (varWord_append isFinal _)),
        bind_of_done (hvars s hs hsuffix), ExprKind.relocate, relocateVars_eq_map]
      rfl

/-! ### Functions -/

theorem startsToken_param {p : Param} (hp : p.IsDeclared) : StartsToken p.printDecl := by
  rw [Param.printDecl, List.append_assoc, List.append_assoc]
  cases p.optional with
  | true => exact ⟨'?', rfl, rfl⟩
  | false => exact hp.name.isName.startsToken.append _

theorem reads_params {params : List Param} (hparams : ∀ p ∈ params, p.IsDeclared)
    (hdefaults : ∀ p ∈ params, ∀ e ∈ p.default, e.kind.ReadsBack)
    (hlisted : ∀ p ∈ params.dropLast, ∀ e ∈ p.default, e.kind.endsWith isDeclaration = false)
    (s : List Char) :
    sepBy (param .nowhere (exprAt .nowhere 0)) (symbol ",")
      (joinWith ", " (params.map (·.printDecl)) ++ ')' :: s) =
      .done (params.map (·.relocate fun _ => .null)) (')' :: s) := by
  by_cases hne : params = []
  · subst hne
    exact sepBy_nil ⟨_, rfl⟩
  · have heats : Eats 1 (param .nowhere (exprAt .nowhere 0)) := eats_of_keeps_succ fun _ =>
      keeps_param (moves_id .nowhere) (keeps_exprAt (moves_id .nowhere) 0)
    have hend : Refuses (do let _ ← symbol ","; param .nowhere (exprAt .nowhere 0)) (')' :: s) :=
      ⟨_, rfl⟩
    have hstart : ∀ p ∈ params, StartsToken p.printDecl :=
      fun p hp => startsToken_param (hparams p hp)
    have hall := reads_sepBy heats hend hne
      (fun p hp t ht => reads_param (hparams p hp) (hdefaults p hp) ht) hstart
      (fun p _ => InitEnds.paren p.default s)
      (neighbours_of_dropLast params fun p hp _ t => InitEnds.comma (hlisted p hp) _)
    exact hall.append (startsToken_joinWith hne hstart)

/-- What is printed between `function` and the parameters. -/
def functionName : FunctionKind → List Char
  | .named name => ' ' :: chars name
  | .anonymous | .arrow => []

theorem reads_functionName (kind : FunctionKind) (h : kind.IsWritten) (s : List Char) :
    ∃ name? : Option String,
      optional identifier (functionName kind ++ '(' :: s) = .done name? ('(' :: s) ∧
      (match name? with
        | some name => FunctionKind.named name
        | none => .anonymous) = kind := by
  cases kind with
  | anonymous => exact ⟨none, rfl, rfl⟩
  | named name =>
    have h : IsIdentifier name := h
    have hskip : skipBlanks (' ' :: (chars name ++ '(' :: s)) = chars name ++ '(' :: s := by
      rw [skipBlanks_space, h.isName.skipBlanks_append]
    have hname : Token.name (skipBlanks (' ' :: (chars name ++ '(' :: s))) =
        .done name ('(' :: s) := by
      rw [hskip]
      exact name_append h.isName (breaks_mark s (by decide))
    have hread : identifier (' ' :: (chars name ++ '(' :: s)) = .done name ('(' :: s) := by
      rw [identifier_of_name hname, h.free]
      rfl
    exact ⟨some name, optional_of_done hread, rfl⟩
  | arrow => exact h.elim

theorem breaks_functionName (kind : FunctionKind) (s : List Char) :
    Breaks (functionName kind ++ '(' :: s) := by
  cases kind with
  | named name => exact breaks_space _
  | anonymous | arrow => exact breaks_mark s (by decide)

theorem refuses_colon_functionName {kind : FunctionKind} (h : kind.IsWritten) (s : List Char) :
    Refuses (symbol ":") (functionName kind ++ '(' :: s) := by
  cases kind with
  | named name =>
    have hname : IsName name := IsIdentifier.isName h
    have hskip := hname.skipBlanks_append ('(' :: s)
    obtain ⟨c, cs, heq, hc, -⟩ := hname
    refine refuses_symbol_head (c := ':') (w := []) rfl fun d hd => ?_
    rw [functionName, List.cons_append, skipBlanks_space, hskip, chars, heq] at hd
    cases hd
    rintro rfl
    exact absurd hc (by decide)
  | anonymous | arrow => exact ⟨_, rfl⟩

theorem baseBack_function {kind : FunctionKind} {params : List Param} {ret : Option ComplexType}
    {body : Expr} (hkind : kind.IsWritten) (hparams : ∀ p ∈ params, p.IsDeclared)
    (hdefaults : ∀ p ∈ params, ∀ e ∈ p.default, e.kind.ReadsBack)
    (hlisted : ∀ p ∈ params.dropLast, ∀ e ∈ p.default, e.kind.endsWith isDeclaration = false)
    (hret : ∀ t ∈ ret, t.Written) (hbody : body.kind.ReadsBack) :
    (ExprKind.function kind ⟨params, ret, some body, []⟩).BaseBack := by
  have htext (s : List Char) : (ExprKind.function kind ⟨params, ret, some body, []⟩).print ++ s =
      chars "function" ++ (functionName kind ++ '(' ::
        (joinWith ", " (params.map (·.printDecl)) ++ ')' ::
          (printHint ret ++ ' ' :: (body.kind.print ++ s)))) := by
    have hname : chars "function " = chars "function" ++ [' '] := rfl
    cases kind <;> simp [ExprKind.print, FunctionDef.print, printParams_eq_map, printBody,
      Expr.print_eq, functionName, hname]
  refine .of_keyword 1 rfl (by decide) (by decide) htext
    (fun _ _ => breaks_functionName kind _) (fun _ _ => refuses_colon_functionName hkind _)
    fun s hs hsuffix => ?_
  have hword (r : List Char) : keyword "function" (chars "function" ++ (functionName kind ++
      '(' :: r)) = .done () (functionName kind ++ '(' :: r) :=
    keyword_append (by decide) (breaks_functionName kind r)
  have hopen (r : List Char) : symbol "(" ('(' :: r) = .done () r := rfl
  have hclose (r : List Char) : symbol ")" (')' :: r) = .done () r := rfl
  obtain ⟨name?, hname, rfl⟩ := reads_functionName kind hkind
    (joinWith ", " (params.map (·.printDecl)) ++ ')' ::
      (printHint ret ++ ' ' :: (body.kind.print ++ s)))
  have hhint := (reads_hint hret (hbody.typeEnds s) (hbody.noColon s)).1
  rw [functionExpr, bind_of_done (hword _), bind_of_done hname, bind_of_done (hopen _),
    bind_of_done (reads_params hparams hdefaults hlisted _), bind_of_done (hclose _),
    bind_of_done hhint, bind_of_done (hbody.space (hs.stops_last rfl rfl (hsuffix (Option.some_ne_none _)))),
    ExprKind.relocate, FunctionDef.relocate, relocateParams_eq_map]
  rfl

end ExprKind

end HaxeMacro
