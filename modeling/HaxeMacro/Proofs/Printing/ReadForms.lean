import HaxeMacro.Proofs.Parser.Climbing
import HaxeMacro.Proofs.Parser.Leaves
import HaxeMacro.Proofs.Parser.Operands
import HaxeMacro.Proofs.Parser.Progress
import HaxeMacro.Proofs.Printing.Forms

/-! # The forms that are read

What the grammar gives is written. For the parts that stand without parentheses this takes what is
left behind them: where an operator follows, no part before it has refused that operator.
-/

namespace HaxeMacro

open Parser Token Grammar

namespace Grammar

/-! ## What is left behind an expression -/

section
variable (src : Source)

def elsePart : Parser Expr := do
  let _ ← optional (symbol ";")
  keyword "else"
  exprAt src 0

/-- Nothing stands there that could be put after an expression directly. -/
def NoSuffix (s : List Char) : Prop := ∀ e, Refuses (suffix (exprAt src 0) e) s

/-- What the forms along the edge leave behind them. -/
structure EndsAt (kind : ExprKind) (rest : List Char) : Prop where
  greedy : kind.endsWith ExprKind.isGreedy = true → Blocked 0 rest
  elseless : kind.endsWith ExprKind.isElseless = true → Refuses (elsePart src) rest

/-- What holds of a form that was read before anything is put after it. -/
structure FormRead (kind : ExprKind) (rest : List Char) : Prop where
  written : kind.Written
  isOperand : kind.IsOperand
  ends : EndsAt src kind rest
  noSuffix : kind.lastPart ≠ none → NoSuffix src rest
  closed : kind.lastPart = none → kind.IsClosed

/-- What holds of an expression that was read. -/
structure ExprRead (e : Expr) (rest : List Char) : Prop where
  written : e.kind.Written
  ends : EndsAt src e.kind rest
  noSuffix : NoSuffix src rest

end

section
variable {src : Source} {kind : ExprKind} {e : Expr} {rest : List Char}

theorem EndsAt.last (hlast : kind.lastPart = some e) (he : EndsAt src e.kind rest)
    (hgreedy : kind.isGreedy = true → Blocked 0 rest)
    (helseless : kind.isElseless = true → Refuses (elsePart src) rest) :
    EndsAt src kind rest := by
  refine ⟨fun h => ?_, fun h => ?_⟩
  · rw [ExprKind.endsWith_of_lastPart _ hlast, Bool.or_eq_true] at h
    exact h.elim hgreedy he.greedy
  · rw [ExprKind.endsWith_of_lastPart _ hlast, Bool.or_eq_true] at h
    exact h.elim helseless he.elseless

theorem EndsAt.closed (hlast : kind.lastPart = none) (hgreedy : kind.isGreedy = false)
    (helseless : kind.isElseless = false) : EndsAt src kind rest := by
  refine ⟨fun h => ?_, fun h => ?_⟩
  · rw [ExprKind.endsWith_of_noLast _ hlast, hgreedy] at h
    cases h
  · rw [ExprKind.endsWith_of_noLast _ hlast, helseless] at h
    cases h

/-- A form that was read to the end of its last part. -/
theorem FormRead.last (hw : kind.Written) (hop : kind.IsOperand) (hlast : kind.lastPart = some e)
    (he : ExprRead src e rest) (hgreedy : kind.isGreedy = true → Blocked 0 rest)
    (helseless : kind.isElseless = true → Refuses (elsePart src) rest) :
    FormRead src kind rest where
  written := hw
  isOperand := hop
  ends := he.ends.last hlast hgreedy helseless
  noSuffix := fun _ => he.noSuffix
  closed := fun h => by
    rw [hlast] at h
    cases h

theorem FormRead.close (hw : kind.Written) (hclosed : kind.IsClosed)
    (hgreedy : kind.isGreedy = false) (helseless : kind.isElseless = false) :
    FormRead src kind rest where
  written := hw
  isOperand := hclosed.isOperand
  ends := .closed hclosed.noLast hgreedy helseless
  noSuffix := fun h => absurd hclosed.noLast h
  closed := fun _ => hclosed

end

/-! ## Parts -/

section

variable {src : Source} {n : Nat}

theorem leaves_typeHint : Leaves n (fun t? _ => ∀ t ∈ t?, ComplexType.Written t)
    (optional (typeHint (complexType src))) := (yields_typeHint src).leaves n

theorem isSigned_number {c : Constant} {s rest : List Char} (h : number s = .done c rest) :
    c.isSigned = false := by
  obtain ⟨d, ds, hprint, hdigit⟩ := number_eq_done h
  cases c with
  | int text | float text =>
    change text.toList = d :: ds at hprint
    rw [Constant.isSigned, hprint, List.head?_cons, beq_eq_false_iff_ne]
    rintro heq
    cases heq
    exact absurd hdigit (by decide)
  | _ => rfl

theorem regexp_of_literal {c : Constant} {s rest : List Char} (h : regexpLiteral s = .done c rest) :
    ∃ pattern flags, c = .regexp pattern flags := by
  unfold regexpLiteral at h
  split at h
  · split at h
    · cases h
      exact ⟨_, _, rfl⟩
    · cases h
  · cases h

theorem isSigned_regexp {c : Constant} {s rest : List Char} (h : regexpLiteral s = .done c rest) :
    c.isSigned = false := by
  obtain ⟨pattern, flags, rfl⟩ := regexp_of_literal h
  rfl

theorem eats_here : Eats 0 here := Keeps.eats fun _ => Keeps.here

theorem eats_condition (src : Source) : Eats 1 (condition (exprAt src 0)) :=
  eats_of_keeps_succ fun _ => keeps_condition (keeps_exprAt (moves_id src) 0)

theorem eats_arguments (src : Source) : Eats 1 (arguments (exprAt src 0)) :=
  eats_of_keeps_succ fun _ => keeps_arguments (keeps_exprAt (moves_id src) 0)

theorem eats_suffix (src : Source) (e : Expr) : Eats 1 (suffix (exprAt src 0) e) :=
  eats_of_keeps_succ fun _ => keeps_suffix (keeps_exprAt (moves_id src) 0) e

theorem isIdentifier_of_identifier {s rest : List Char} {name : String}
    (h : identifier s = .done name rest) : IsIdentifier name :=
  ⟨(identifier_eq_done h).1, (identifier_eq_done h).2.1⟩

theorem leaves_identifier : Leaves n (fun name _ => IsIdentifier name) identifier :=
  fun _ _ _ _ h => isIdentifier_of_identifier h

variable (hexpr : Leaves n (fun e rest => ExprRead src e rest ∧ Blocked 0 rest) (exprAt src 0))
include hexpr

theorem leaves_read : Leaves n (ExprRead src) (exprAt src 0) := hexpr.mono fun _ _ h => h.1

theorem leaves_written : Leaves n (fun e _ => e.kind.Written) (exprAt src 0) :=
  hexpr.mono fun _ _ h => h.1.written

theorem leaves_items : Leaves n (fun items _ => ∀ e ∈ items, e.kind.Written)
    (sepBy (exprAt src 0) (symbol ",")) := by
  refine ((leaves_written hexpr).sepBy (eats_exprAt src 0) (eats_symbol (by decide))).mono ?_
  intro items _ h e he
  exact (h e he).elim fun _ h => h

theorem leaves_argumentsTail :
    Leaves n (fun args _ => ∀ e ∈ args, e.kind.Written) (argumentsTail (exprAt src 0)) := by
  refine (leaves_items hexpr).bind ((eats_exprAt src 0).sepBy (eats_symbol (by decide))) ?_
  exact fun args hargs => Leaves.skip (eats_symbol (by decide)) fun _ => Leaves.pure fun _ => hargs

theorem leaves_arguments :
    Leaves n (fun args _ => ∀ e ∈ args, e.kind.Written) (arguments (exprAt src 0)) :=
  Leaves.skip (eats_symbol (by decide)) fun _ => leaves_argumentsTail hexpr

theorem leaves_condition : Leaves n (fun e _ => e.kind.Written) (condition (exprAt src 0)) := by
  refine Leaves.skip (eats_symbol (by decide)) fun _ => ?_
  refine (leaves_written hexpr).bind (eats_exprAt src 0) fun e he => ?_
  exact Leaves.skip (eats_symbol (by decide)) fun _ => Leaves.pure fun _ => he

theorem leaves_metadata : Leaves (n + 1)
    (fun entry _ => entry.IsNamed ∧ ∀ e ∈ entry.args, e.kind.Written)
    (metadata src (exprAt src 0)) := by
  refine Leaves.skip eats_blanks fun _ => Leaves.skip eats_here fun start => ?_
  refine Leaves.eat (eats_text "@") fun _ => Leaves.skip (eats_text ":").present fun colon => ?_
  have hname : Leaves n (fun word _ => IsName word) name := fun _ _ _ _ h => isName_of_name h
  refine hname.bind eats_name fun word hword => ?_
  have hargs : Leaves n (fun args _ => ∀ e ∈ args, e.kind.Written)
      (do text "("; argumentsTail (exprAt src 0)) :=
    Leaves.skip (eats_text "(") fun _ => leaves_argumentsTail hexpr
  have hkeeps (n : Nat) : Keeps (List.map (·.relocate id)) 1 n
      (do text "("; argumentsTail (exprAt src 0)) (do text "("; argumentsTail (exprAt src 0)) :=
    (keeps_text n (by decide)).andThen fun _ =>
      (keeps_argumentsTail (keeps_exprAt (moves_id src) 0)).weaken
  have heats := (Keeps.eats_left hkeeps).optional
  refine (hargs.optional.mono fun _ _ h => h.1).bind heats fun args? hargs => ?_
  refine Leaves.skip eats_here fun stop => Leaves.pure fun _ => ⟨⟨word, hword, ?_⟩, ?_⟩
  · cases colon with
    | true => exact Or.inr rfl
    | false => exact Or.inl rfl
  · cases args? with
    | none => simp
    | some args => exact hargs args rfl

/-! ## Keywords -/

theorem leaves_varDecl (isFinal isStatic : Bool) : Leaves n
    (fun v rest => v.IsDeclared isFinal isStatic ∧ ∀ e ∈ v.init, ExprRead src e rest)
    (varDecl src (exprAt src 0) isFinal isStatic) := by
  refine leaves_identifier.bind eats_identifier fun name hname => ?_
  refine leaves_typeHint.bind (eats_typeHint src) fun type htype => ?_
  have hinit : Leaves n (ExprRead src)
      (do symbol "="; lacks (char fun c => c == '=' || c == '>'); exprAt src 0) :=
    Leaves.skip (eats_symbol (by decide)) fun _ =>
      Leaves.skip (Keeps.eats fun n => ((eats_char _).keeps n).lacks) fun _ => leaves_read hexpr
  exact hinit.optional.last fun init rest h => ⟨⟨hname, htype, rfl, rfl, rfl⟩, h.1⟩

theorem leaves_varExpr : Leaves (n + 1) (FormRead src) (varExpr src (exprAt src 0)) := by
  refine Leaves.skip (eats_keyword (by decide)).present fun isStatic => ?_
  refine Leaves.eat eats_varWord fun isFinal => ?_
  have heats : Eats 1 (varDecl src (exprAt src 0) isFinal isStatic) := eats_of_keeps_succ fun _ =>
    keeps_varDecl (moves_id src) (keeps_exprAt (moves_id src) 0) isFinal isStatic
  refine ((leaves_varDecl hexpr isFinal isStatic).sepBy1 heats (eats_symbol (by decide))).last ?_
  rintro vs rest ⟨heach, v, hv, -, hinit⟩
  have hne : vs ≠ [] := by
    rintro rfl
    cases hv
  have hshape : ∀ w ∈ vs, w.IsDeclared isFinal isStatic :=
    fun w hw => (heach w hw).elim fun _ h => h.1
  have hinits : ∀ w ∈ vs, ∀ e ∈ w.init, e.kind.Written :=
    fun w hw e he => (heach w hw).elim fun _ h => (h.2 e he).written
  have hw : (ExprKind.vars vs).Written := .vars hne hshape hinits
  have hlast : (ExprKind.vars vs).lastPart = v.init := by
    rw [ExprKind.lastPart, Option.mem_def.mp hv]
    rfl
  cases he : v.init with
  | some e => exact .last hw trivial (hlast.trans he) (hinit e he) nofun nofun
  | none => exact .close hw ⟨hlast.trans he, nofun⟩ rfl rfl

theorem leaves_param : Leaves n
    (fun p _ => p.IsDeclared ∧ ∀ e ∈ p.default, e.kind.Written) (param src (exprAt src 0)) := by
  refine Leaves.skip (eats_symbol (by decide)).present fun mark => ?_
  refine leaves_identifier.bind eats_identifier fun name hname => ?_
  refine leaves_typeHint.bind (eats_typeHint src) fun type htype => ?_
  have hdefault : Leaves n (fun e _ => e.kind.Written) (do symbol "="; exprAt src 0) :=
    Leaves.skip (eats_symbol (by decide)) fun _ => leaves_written hexpr
  exact hdefault.optional.last fun default rest h => ⟨⟨hname, htype, rfl⟩, h.1⟩

theorem leaves_functionExpr : Leaves (n + 1) (FormRead src) (functionExpr src (exprAt src 0)) := by
  refine Leaves.eat (eats_keyword (by decide)) fun _ => ?_
  refine (leaves_identifier.optional.mono fun _ _ h => h.1).bind eats_identifier.optional ?_
  intro name? hname
  refine Leaves.skip (eats_symbol (by decide)) fun _ => ?_
  have heats : Eats 1 (param src (exprAt src 0)) := eats_of_keeps_succ fun _ =>
    keeps_param (moves_id src) (keeps_exprAt (moves_id src) 0)
  have hparams : Leaves n (fun ps _ => ∀ p ∈ ps, p.IsDeclared ∧ ∀ e ∈ p.default, e.kind.Written)
      (sepBy (param src (exprAt src 0)) (symbol ",")) := by
    refine ((leaves_param hexpr).sepBy heats (eats_symbol (by decide))).mono fun ps _ h p hp => ?_
    exact (h p hp).elim fun _ h => h
  refine hparams.bind (heats.sepBy (eats_symbol (by decide))) fun params hparams => ?_
  refine Leaves.skip (eats_symbol (by decide)) fun _ => ?_
  refine leaves_typeHint.bind (eats_typeHint src) fun ret hret => ?_
  refine hexpr.last fun body rest h => .last (.function ?_ (fun p hp => (hparams p hp).1)
    (fun p hp => (hparams p hp).2) hret h.1.written) trivial rfl h.1 (fun _ => h.2) nofun
  cases name? with
  | none => trivial
  | some name => exact hname name rfl

theorem leaves_ifExpr : Leaves (n + 1) (FormRead src) (ifExpr (exprAt src 0)) := by
  refine Leaves.eat (eats_keyword (by decide)) fun _ => ?_
  refine (leaves_condition hexpr).bind (eats_condition src) fun test htest => ?_
  intro s kind rest hs h
  obtain ⟨yes, middle, hyes, h⟩ := bind_eq_done h
  obtain ⟨no?, rest', hno, h⟩ := bind_eq_done h
  cases h
  have hmiddle := (eats_exprAt src 0).length hyes
  have hyes := hexpr s yes middle hs hyes
  have helse : Leaves n (fun e rest => ExprRead src e rest ∧ Blocked 0 rest) (elsePart src) :=
    Leaves.skip (eats_optionalSymbol (by decide)) fun _ =>
      Leaves.skip (eats_keyword (by decide)) fun _ => hexpr
  have hread := helse.optional middle no? rest (by omega) hno
  rcases optional_eq_done hno with ⟨no, rfl, hdone⟩ | ⟨rfl, rfl, hrefused⟩
  · have hno := hread.1 no rfl
    have hown : yes.kind.endsWith ExprKind.isElseless = false := by
      rw [Bool.eq_false_iff]
      exact fun hends => (hyes.1.ends.elseless hends).not_done hdone
    exact .last (.condElse htest hyes.1.written hown hno.1.written) trivial rfl hno.1
      (fun _ => hno.2) nofun
  · exact .last (.cond htest hyes.1.written) trivial rfl hyes.1 (fun _ => hyes.2)
      fun _ => hread.2 rfl

theorem leaves_whileExpr : Leaves (n + 1) (FormRead src) (whileExpr (exprAt src 0)) := by
  refine Leaves.eat (eats_keyword (by decide)) fun _ => ?_
  refine (leaves_condition hexpr).bind (eats_condition src) fun test htest => ?_
  exact hexpr.last fun body rest h =>
    .last (.loop htest h.1.written true) trivial rfl h.1 (fun _ => h.2) nofun

theorem leaves_doWhileExpr : Leaves (n + 1) (FormRead src) (doWhileExpr (exprAt src 0)) := by
  refine Leaves.eat (eats_keyword (by decide)) fun _ => ?_
  refine (leaves_written hexpr).bind (eats_exprAt src 0) fun body hbody => ?_
  refine Leaves.skip (eats_optionalSymbol (by decide)) fun _ => ?_
  refine Leaves.skip (eats_keyword (by decide)) fun _ => ?_
  exact (leaves_condition hexpr).last fun test rest htest =>
    .close (.loop htest hbody false) ⟨rfl, nofun⟩ rfl rfl

theorem leaves_forExpr : Leaves (n + 1) (FormRead src) (forExpr src (exprAt src 0)) := by
  refine Leaves.eat (eats_keyword (by decide)) fun _ => ?_
  refine Leaves.skip (eats_symbol (by decide)) fun _ => Leaves.skip eats_blanks fun _ => ?_
  refine Leaves.skip eats_here fun start => ?_
  refine leaves_identifier.bind eats_identifier fun name hname => ?_
  refine Leaves.skip eats_here fun stop => Leaves.skip (eats_keyword (by decide)) fun _ => ?_
  refine (leaves_written hexpr).bind (eats_exprAt src 0) fun range hrange => ?_
  refine Leaves.skip (eats_symbol (by decide)) fun _ => ?_
  exact hexpr.last fun body rest h =>
    .last (.forIn _ _ hname hrange h.1.written) trivial rfl h.1 (fun _ => h.2) nofun

theorem leaves_newExpr : Leaves (n + 1) (FormRead src) (newExpr src (exprAt src 0)) := by
  refine Leaves.eat (eats_keyword (by decide)) fun _ => Leaves.skip eats_blanks fun _ => ?_
  have hpath : Leaves n (fun path _ => path.Written) (typePath (complexType src)) :=
    fun _ _ _ _ h => written_of_typePath h
  refine hpath.bind (eats_path src) fun path hpath => ?_
  exact (leaves_arguments hexpr).last fun args rest hargs =>
    .close (.new hpath hargs) ⟨rfl, nofun⟩ rfl rfl

theorem leaves_castExpr
    (htight : Leaves n (fun e rest => ExprRead src e rest ∧ e.kind.IsOperand) (tightExpr src)) :
    Leaves (n + 1) (FormRead src) (castExpr src (exprAt src 0) (tightExpr src)) := by
  refine Leaves.eat (eats_keyword (by decide)) fun _ => ?_
  intro s kind rest hs h
  obtain ⟨checked, middle, hchecked, hgoes⟩ := bind_eq_done h
  rcases optional_eq_done hchecked with ⟨kind', rfl, hdone⟩ | ⟨rfl, rfl, -⟩
  · cases hgoes
    obtain ⟨_, s₁, hopen, hdone⟩ := bind_eq_done hdone
    obtain ⟨e, s₂, he, hdone⟩ := bind_eq_done hdone
    obtain ⟨_, s₃, -, hdone⟩ := bind_eq_done hdone
    obtain ⟨_, s₄, -, hdone⟩ := bind_eq_done hdone
    obtain ⟨t, s₅, ht, hdone⟩ := bind_eq_done hdone
    obtain ⟨_, s₆, -, hdone⟩ := bind_eq_done hdone
    cases hdone
    have h₁ := (eats_symbol (by decide)).length hopen
    have he := leaves_written hexpr s₁ e s₂ (by omega) he
    exact .close (.castTo he (written_of_complexType ht)) ⟨rfl, nofun⟩ rfl rfl
  · obtain ⟨e, s₁, he, hgoes⟩ := bind_eq_done hgoes
    cases hgoes
    have he := htight middle e rest hs he
    exact .last (.cast he.1.written he.2) trivial rfl he.1 nofun nofun

theorem leaves_keywordExpr
    (htight : Leaves n (fun e rest => ExprRead src e rest ∧ e.kind.IsOperand) (tightExpr src)) :
    Leaves (n + 1) (FormRead src) (keywordExpr src (exprAt src 0) (tightExpr src)) := by
  refine Leaves.oneOf fun p hp => ?_
  simp only [List.mem_cons, List.not_mem_nil, or_false] at hp
  rcases hp with rfl | rfl | rfl | rfl | rfl | rfl | rfl | rfl | rfl | rfl | rfl | rfl | rfl
  · exact leaves_varExpr hexpr
  · exact leaves_functionExpr hexpr
  · exact leaves_ifExpr hexpr
  · exact leaves_whileExpr hexpr
  · exact leaves_doWhileExpr hexpr
  · exact leaves_forExpr hexpr
  · exact leaves_newExpr hexpr
  · exact leaves_castExpr hexpr htight
  · refine Leaves.eat (eats_keyword (by decide)) fun _ => hexpr.optional.last fun e? rest h => ?_
    cases e? with
    | none => exact .close (.ret nofun) ⟨rfl, nofun⟩ rfl rfl
    | some e =>
      have he := h.1 e rfl
      have hw : ∀ e' ∈ some e, e'.kind.Written := by
        intro e' he'
        cases he'
        exact he.1.written
      exact .last (.ret hw) trivial rfl he.1 (fun _ => he.2) nofun
  · exact Leaves.eat (eats_keyword (by decide)) fun _ => hexpr.last fun e rest h =>
      .last (.throw h.1.written) trivial rfl h.1 (fun _ => h.2) nofun
  · exact Leaves.eat (eats_keyword (by decide)) fun _ => hexpr.last fun e rest h =>
      .last (.untyped h.1.written) trivial rfl h.1 (fun _ => h.2) nofun
  · exact Leaves.eat (eats_keyword (by decide)) fun _ => Leaves.pure fun rest =>
      .close .brk ⟨rfl, nofun⟩ rfl rfl
  · exact Leaves.eat (eats_keyword (by decide)) fun _ => Leaves.pure fun rest =>
      .close .cont ⟨rfl, nofun⟩ rfl rfl

/-! ## Other primary expressions -/

theorem leaves_metaExpr : Leaves (n + 1) (FormRead src) (metaExpr src (exprAt src 0)) := by
  have heats : Eats 1 (metadata src (exprAt src 0)) := eats_of_keeps_succ fun _ =>
    keeps_metadata (moves_id src) (keeps_exprAt (moves_id src) 0)
  refine (leaves_metadata hexpr).eatThen heats fun entry hentry => ?_
  exact hexpr.last fun e rest h =>
    .last (.annotated hentry.1 hentry.2 h.1.written) trivial rfl h.1 (fun _ => h.2) nofun

theorem leaves_parenExpr : Leaves (n + 1) (FormRead src) (parenExpr src (exprAt src 0)) := by
  refine Leaves.eat (eats_symbol (by decide)) fun _ => ?_
  refine (leaves_written hexpr).bind (eats_exprAt src 0) fun e he => ?_
  refine leaves_typeHint.bind (eats_typeHint src) fun type htype => ?_
  refine Leaves.skip (eats_symbol (by decide)) fun _ => Leaves.pure fun rest => ?_
  cases type with
  | some t => exact .close (.checkType he (htype t rfl)) ⟨rfl, nofun⟩ rfl rfl
  | none => exact .close (.paren he) ⟨rfl, nofun⟩ rfl rfl

theorem leaves_arrayExpr : Leaves (n + 1) (FormRead src) (arrayExpr (exprAt src 0)) := by
  refine Leaves.eat (eats_symbol (by decide)) fun _ => ?_
  refine (leaves_items hexpr).bind ((eats_exprAt src 0).sepBy (eats_symbol (by decide))) ?_
  refine fun items hitems => Leaves.skip (eats_optionalSymbol (by decide)) fun _ => ?_
  exact Leaves.skip (eats_symbol (by decide)) fun _ => Leaves.pure fun rest =>
    .close (.array hitems) ⟨rfl, nofun⟩ rfl rfl

theorem leaves_objectField : Leaves n
    (fun field _ => (field.quoted = false → IsName field.name) ∧ field.value.kind.Written)
    (objectField (exprAt src 0)) := by
  refine Leaves.skip eats_blanks fun _ => ?_
  intro s field rest hs h
  obtain ⟨⟨name, quoted⟩, s₁, hname, h⟩ := bind_eq_done h
  have hread : s₁.length < s.length ∧ (quoted = false → IsName name) := by
    rcases or_eq_done hname with hname | ⟨-, hname⟩
    · obtain ⟨word, _, hword, heq⟩ := bind_eq_done hname
      cases heq
      exact ⟨eats_anyIdentifier.length hword, fun _ => isName_of_anyIdentifier hword⟩
    · obtain ⟨literal, _, hliteral, heq⟩ := bind_eq_done hname
      cases heq
      exact ⟨eats_stringLiteral.length hliteral, nofun⟩
  obtain ⟨_, s₂, hcolon, h⟩ := bind_eq_done h
  obtain ⟨value, s₃, hvalue, h⟩ := bind_eq_done h
  cases h
  have h₂ := (eats_symbol (by decide)).length hcolon
  exact ⟨hread.2, leaves_written hexpr s₂ value rest (by omega) hvalue⟩

theorem leaves_objectTail : Leaves n (FormRead src) (objectTail (exprAt src 0)) := by
  have heats : Eats 1 (objectField (exprAt src 0)) := eats_of_keeps_succ fun _ =>
    keeps_objectField (keeps_exprAt (moves_id src) 0)
  have hfields : Leaves n (fun fields _ => fields ≠ [] ∧ ∀ field ∈ fields,
      (field.quoted = false → IsName field.name) ∧ field.value.kind.Written)
      (sepBy1 (objectField (exprAt src 0)) (symbol ",")) := by
    refine ((leaves_objectField hexpr).sepBy1 heats (eats_symbol (by decide))).mono ?_
    rintro fields rest ⟨heach, field, hfield, -⟩
    refine ⟨?_, fun f hf => (heach f hf).elim fun _ h => h⟩
    rintro rfl
    cases hfield
  refine hfields.bind (heats.sepBy1 (eats_symbol (by decide))) fun fields h => ?_
  refine Leaves.skip (eats_optionalSymbol (by decide)) fun _ => ?_
  exact Leaves.skip (eats_symbol (by decide)) fun _ => Leaves.pure fun rest =>
    .close (.object h.1 (fun f hf => (h.2 f hf).1) fun f hf => (h.2 f hf).2) ⟨rfl, nofun⟩ rfl rfl

theorem leaves_blockTail : Leaves n (FormRead src) (blockTail (exprAt src 0)) := by
  have hstatement : Leaves n (fun e? _ => ∀ e ∈ e?, e.kind.Written) (statement (exprAt src 0)) := by
    refine Leaves.or ?_ (Leaves.skip (eats_symbol (by decide)) fun _ => Leaves.pure fun _ => nofun)
    refine (leaves_written hexpr).bind (eats_exprAt src 0) fun e he => ?_
    exact Leaves.skip (eats_optionalSymbol (by decide)) fun _ => Leaves.pure fun _ => by simpa
  have hkeeps (n : Nat) : Keeps (Option.map (·.relocate id)) 1 n (statement (exprAt src 0))
      (statement (exprAt src 0)) := keeps_statement (keeps_exprAt (moves_id src) 0)
  have heats := Keeps.eats_left hkeeps
  refine (hstatement.many heats).bind (Keeps.eats_left fun n => (heats.keeps n).many) ?_
  refine fun statements h => Leaves.skip (eats_symbol (by decide)) fun _ => Leaves.pure fun rest =>
    .close (.block fun e hmem => ?_) ⟨rfl, nofun⟩ rfl rfl
  obtain ⟨statement, hstatement, heq⟩ := List.mem_filterMap.mp hmem
  exact h statement hstatement e heq

theorem leaves_braces : Leaves (n + 1) (FormRead src) (braces (exprAt src 0)) :=
  Leaves.eat (eats_symbol (by decide)) fun _ =>
    (leaves_objectTail hexpr).or (leaves_blockTail hexpr)

omit hexpr in
theorem leaves_constant : Leaves n (FormRead src) constant := by
  refine Leaves.oneOf fun p hp => ?_
  simp only [List.mem_cons, List.not_mem_nil, or_false] at hp
  rcases hp with rfl | rfl | rfl | rfl
  all_goals
    intro s kind rest _ h
    obtain ⟨c, _, hc, h⟩ := bind_eq_done h
    cases h
  · exact .close (.const (.number hc))
      ⟨rfl, fun c' h => by cases h; exact isSigned_number hc⟩ rfl rfl
  · exact .close (.const (.string _ _)) ⟨rfl, fun c' h => by cases h; rfl⟩ rfl rfl
  · exact .close (.const (.regexp hc))
      ⟨rfl, fun c' h => by cases h; exact isSigned_regexp hc⟩ rfl rfl
  · exact .close (.const (.ident (isIdentifier_of_identifier hc)))
      ⟨rfl, fun c' h => by cases h; rfl⟩ rfl rfl

theorem leaves_primary
    (htight : Leaves n (fun e rest => ExprRead src e rest ∧ e.kind.IsOperand) (tightExpr src)) :
    Leaves (n + 1) (fun e rest => FormRead src e.kind rest)
      (primary src (exprAt src 0) (tightExpr src)) := by
  refine Leaves.skip eats_blanks fun _ => Leaves.skip eats_here fun start => ?_
  intro s e rest hs h
  obtain ⟨kind, middle, hkind, h⟩ := bind_eq_done h
  cases h
  have hforms : Leaves (n + 1) (FormRead src) (oneOf [
      keywordExpr src (exprAt src 0) (tightExpr src),
      metaExpr src (exprAt src 0),
      parenExpr src (exprAt src 0),
      arrayExpr (exprAt src 0),
      braces (exprAt src 0),
      constant]) := by
    refine Leaves.oneOf fun p hp => ?_
    simp only [List.mem_cons, List.not_mem_nil, or_false] at hp
    rcases hp with rfl | rfl | rfl | rfl | rfl | rfl
    · exact leaves_keywordExpr hexpr htight
    · exact leaves_metaExpr hexpr
    · exact leaves_parenExpr hexpr
    · exact leaves_arrayExpr hexpr
    · exact leaves_braces hexpr
    · exact leaves_constant
  exact hforms s kind rest hs hkind

/-! ## Operands -/

omit hexpr in
/-- Whether something can be put after an expression does not depend on the expression. -/
theorem refuses_suffix {e : Expr} {s : List Char} (h : Refuses (suffix (exprAt src 0) e) s) :
    NoSuffix src s := by
  intro e'
  let onto : ExprKind → ExprKind
    | .field _ name => .field e' name
    | .call _ args => .call e' args
    | .index _ i => .index e' i
    | .unary op after _ => .unary op after e'
    | kind => kind
  have hkeeps : Keeps onto 1 (s.length + 1) (suffix (exprAt src 0) e)
      (suffix (exprAt src 0) e') := by
    refine Keeps.or ?_ <| Keeps.or ?_ <| Keeps.or ?_ ?_
    · refine (keeps_symbol _ (by decide)).eat fun _ => ?_
      exact (eats_anyIdentifier.keeps _).weaken.andThen fun _ => Keeps.pure rfl
    · exact ((eats_arguments src).keeps _).andThen fun _ => Keeps.pure rfl
    · refine (keeps_symbol _ (by decide)).eat fun _ => ?_
      refine ((eats_exprAt src 0).keeps _).weaken.andThen fun _ => ?_
      exact (keeps_symbol _ (by decide)).weaken.andThen fun _ => Keeps.pure rfl
    · exact (eats_trailingOp.keeps _).andThen fun _ => Keeps.pure rfl
  obtain ⟨place, hplace⟩ := h
  refine ⟨place, ?_⟩
  rw [(hkeeps s (Nat.lt_succ_self _)).1, hplace]
  rfl

theorem leaves_suffix {e : Expr} (h : e.kind.Written) (hclosed : e.kind.IsClosed) :
    Leaves (n + 1) (FormRead src) (suffix (exprAt src 0) e) := by
  refine Leaves.oneOf fun p hp => ?_
  simp only [List.mem_cons, List.not_mem_nil, or_false] at hp
  rcases hp with rfl | rfl | rfl | rfl
  · have hname : Leaves n (fun name _ => IsName name) anyIdentifier :=
      fun _ _ _ _ h => isName_of_anyIdentifier h
    exact Leaves.eat (eats_symbol (by decide)) fun _ => hname.last fun name rest hname =>
      .close (.field h hclosed hname) ⟨rfl, nofun⟩ rfl rfl
  · exact (Leaves.eat (eats_symbol (by decide)) fun _ => leaves_argumentsTail hexpr).last
      fun args rest hargs => .close (.call h hclosed hargs) ⟨rfl, nofun⟩ rfl rfl
  · refine Leaves.eat (eats_symbol (by decide)) fun _ => ?_
    refine (leaves_written hexpr).bind (eats_exprAt src 0) fun i hi => ?_
    exact Leaves.skip (eats_symbol (by decide)) fun _ => Leaves.pure fun rest =>
      .close (.index h hclosed hi) ⟨rfl, nofun⟩ rfl rfl
  · have hop : Leaves (n + 1) (fun op _ => op = .increment ∨ op = .decrement) trailingOp := by
      refine Leaves.skip eats_blanks fun _ => Leaves.oneOf fun p hp => ?_
      simp only [List.mem_cons, List.not_mem_nil, or_false] at hp
      rcases hp with rfl | rfl
      · exact Leaves.skip (eats_text _) fun _ => Leaves.pure fun _ => Or.inl rfl
      · exact Leaves.skip (eats_text _) fun _ => Leaves.pure fun _ => Or.inr rfl
    exact hop.last fun op rest hop => .close (.trailing h hclosed hop) ⟨rfl, nofun⟩ rfl rfl

/-- What is put after a form can only be put after a closed one: the last part of another would
have taken it. -/
theorem formRead_suffix {e : Expr} {kind : ExprKind} {s rest : List Char} (hs : s.length < n + 1)
    (he : FormRead src e.kind s) (h : suffix (exprAt src 0) e s = .done kind rest) :
    FormRead src kind rest := by
  have hclosed : e.kind.IsClosed := by
    cases hlast : e.kind.lastPart with
    | none => exact he.closed hlast
    | some last =>
      have hnone := he.noSuffix (by simp [hlast]) e
      exact absurd h hnone.not_done
  exact leaves_suffix hexpr he.written hclosed s kind rest hs h

theorem leaves_postfixed
    (htight : Leaves n (fun e rest => ExprRead src e rest ∧ e.kind.IsOperand) (tightExpr src)) :
    Leaves (n + 1) (fun e rest => ExprRead src e rest ∧ e.kind.IsOperand)
      (postfixed src (exprAt src 0) (tightExpr src)) := by
  refine Leaves.skip eats_blanks fun _ => Leaves.skip eats_here fun start => ?_
  intro s e rest hs h
  obtain ⟨first, middle, hfirst, h⟩ := bind_eq_done h
  have hmiddle := (eats_of_keeps_succ fun _ => keeps_primary (moves_id src)
    (keeps_exprAt (moves_id src) 0) (keeps_tightExpr (moves_id src))).length hfirst
  have hfirst := leaves_primary hexpr htight s first middle hs hfirst
  obtain ⟨⟨-, hread⟩, place, hnone⟩ := grow_eq_done
    (P := fun a s => s.length < n + 1 ∧ FormRead src a.kind s)
    (by
      rintro a b s rest ⟨hs, ha⟩ hstep
      obtain ⟨kind?, s₁, hkind, hstep⟩ := bind_eq_done hstep
      rcases optional_eq_done hkind with ⟨kind, rfl, hdone⟩ | ⟨rfl, -⟩
      · cases hstep
        have hlength := (eats_suffix src a).length hdone
        exact ⟨by omega, formRead_suffix hexpr hs ha hdone⟩
      · cases hstep)
    ⟨by omega, hfirst⟩ h
  refine ⟨⟨hread.written, hread.ends, ?_⟩, hread.isOperand⟩
  obtain ⟨kind?, _, hkind, hnone⟩ := bind_eq_done hnone
  rcases optional_eq_done hkind with ⟨kind, rfl, -⟩ | ⟨rfl, -, hrefused⟩
  · cases hnone
  · exact refuses_suffix hrefused

/-! ## Leading operators -/

omit hexpr in
theorem applyLeading_cases (op : UnaryOp) (e : Expr) :
    (∃ text, e.kind = .const (.int text) ∧ applyLeading op e = .const (.int ("-" ++ text))) ∨
    (∃ text, e.kind = .const (.float text) ∧ applyLeading op e = .const (.float ("-" ++ text))) ∨
    applyLeading op e = .unary op false e := by
  unfold applyLeading
  split
  · rename_i text hkind
    exact Or.inl ⟨text, hkind, rfl⟩
  · rename_i text hkind
    exact Or.inr (Or.inl ⟨text, hkind, rfl⟩)
  · exact Or.inr (Or.inr rfl)

omit hexpr in
theorem exprRead_applyLeading (op : UnaryOp) {e : Expr} (pos : Position) {rest : List Char}
    (h : ExprRead src e rest) (hop : e.kind.IsOperand) :
    ExprRead src ⟨applyLeading op e, pos⟩ rest ∧ (applyLeading op e).IsOperand := by
  have hw := h.written
  rcases applyLeading_cases op e with ⟨text, hkind, heq⟩ | ⟨text, hkind, heq⟩ | heq
  · rw [hkind] at hw
    cases hw with
    | const hc =>
      rw [heq]
      exact ⟨⟨.const (.negatedInt hc), .closed rfl rfl rfl, h.noSuffix⟩, trivial⟩
  · rw [hkind] at hw
    cases hw with
    | const hc =>
      rw [heq]
      exact ⟨⟨.const (.negatedFloat hc), .closed rfl rfl rfl, h.noSuffix⟩, trivial⟩
  · rw [heq]
    exact ⟨⟨.leading hw hop heq, .last rfl h.ends nofun nofun, h.noSuffix⟩, trivial⟩

theorem leaves_leading
    (htight : Leaves n (fun e rest => ExprRead src e rest ∧ e.kind.IsOperand) (tightExpr src)) :
    Leaves (n + 1) (fun e rest => ExprRead src e rest ∧ e.kind.IsOperand)
      (leading src (exprAt src 0) (tightExpr src)) := by
  refine Leaves.skip eats_blanks fun _ => Leaves.skip eats_here fun start => ?_
  intro s e rest hs h
  obtain ⟨op?, middle, hop, hgoes⟩ := bind_eq_done h
  rcases optional_eq_done hop with ⟨op, rfl, hdone⟩ | ⟨rfl, rfl, -⟩
  · obtain ⟨inner, _, hinner, hgoes⟩ := bind_eq_done hgoes
    cases hgoes
    have hmiddle := eats_leadingOp.length hdone
    have hinner := htight middle inner rest (by omega) hinner
    exact exprRead_applyLeading op _ hinner.1 hinner.2
  · exact leaves_postfixed hexpr htight middle e rest hs hgoes

end

/-! ## Binary operators -/

/-- What holds of an expression while it grows by operators of level `least` or higher. -/
structure Growing (src : Source) (least : Nat) (e : Expr) (s : List Char) : Prop
    extends ExprRead src e s where
  atLeast : IsAtLeast least e.kind
  mayPrecede : MayPrecede e.kind s

theorem isAtLeast_of_isOperand {kind : ExprKind} (h : kind.IsOperand) (least : Nat) :
    IsAtLeast least kind := by
  cases kind <;> first | exact h.elim | trivial

theorem mayPrecede_of_isOperand {kind : ExprKind} (h : kind.IsOperand) (s : List Char) :
    MayPrecede kind s := by
  cases kind <;> first | exact h.elim | trivial

/-- What stands before an operator does not end with a part that would have taken it. -/
theorem EndsAt.open_of_binaryOp {src : Source} {kind : ExprKind} {s rest : List Char}
    {op : BinaryOp} (h : EndsAt src kind s) (hop : binaryOp s = .done op rest) :
    kind.endsWith ExprKind.isGreedy = false := by
  rw [Bool.eq_false_iff]
  intro hgreedy
  exact absurd ((h.greedy hgreedy).operator op rest hop) (Nat.not_lt_zero _)

theorem EndsAt.open_of_ternaryMark {src : Source} {kind : ExprKind} {s rest : List Char} {a : Unit}
    (h : EndsAt src kind s) (hmark : ternaryMark s = .done a rest) :
    kind.endsWith ExprKind.isGreedy = false := by
  rw [Bool.eq_false_iff]
  intro hgreedy
  exact ((h.greedy hgreedy).ternary (Nat.zero_le _)).not_done hmark

theorem binaryOp_mem {s rest : List Char} {op : BinaryOp} (h : binaryOp s = .done op rest) :
    ∃ word, (word, op) ∈ binarySymbols := by
  obtain ⟨_, _, -, h⟩ := bind_eq_done h
  obtain ⟨p, hp, h⟩ := oneOf_eq_done h
  obtain ⟨⟨word, op'⟩, hmem, rfl⟩ := List.mem_map.mp hp
  obtain ⟨_, _, -, h⟩ := bind_eq_done h
  refine ⟨word, ?_⟩
  split at h
  · obtain ⟨_, _, -, h⟩ := bind_eq_done h
    cases h
    exact hmem
  · cases h
    exact hmem

section

variable {src : Source} {n : Nat}
  (hbinary : ∀ least, Leaves n (fun e rest => ExprRead src e rest ∧ IsAtLeast least e.kind ∧
    Blocked least rest) (exprAt src least))
include hbinary

theorem growing_ternaryTail {least : Nat} {left e : Expr} {s s' rest : List Char} {a : Unit}
    (hs : s.length < n + 1) (hle : least ≤ ternaryLevel) (hleft : Growing src least left s)
    (hmark : ternaryMark s = .done a s') (h : ternaryTail (exprAt src) left s' = .done e rest) :
    Growing src least e rest := by
  obtain ⟨yes, s₁, hyes, h⟩ := bind_eq_done h
  obtain ⟨_, s₂, hcolon, h⟩ := bind_eq_done h
  obtain ⟨no, s₃, hno, h⟩ := bind_eq_done h
  cases h
  have h' := eats_ternaryMark.length hmark
  have h₁ := (eats_exprAt src 0).length hyes
  have h₂ := (eats_symbol (by decide)).length hcolon
  obtain ⟨hyes, -⟩ := hbinary 0 s' yes s₁ (by omega) hyes
  obtain ⟨hno, hatLeast, hblocked⟩ := hbinary ternaryLevel s₂ no rest (by omega) hno
  exact {
    written := .ternary hleft.written hyes.written hno.written (hleft.mayPrecede.isTest hmark)
      (hleft.ends.open_of_ternaryMark hmark) hatLeast.isAlternative
    ends := .last rfl hno.ends nofun nofun
    noSuffix := hno.noSuffix
    atLeast := hle
    mayPrecede := hblocked }

theorem growing_operatorTail {least : Nat} {left e : Expr} {s rest : List Char}
    (hs : s.length < n + 1) (hleft : Growing src least left s)
    (h : operatorTail (exprAt src) least left s = .done (some e) rest) :
    Growing src least e rest := by
  obtain ⟨op?, s₁, hop?, htail⟩ := bind_eq_done h
  rcases optional_eq_done hop? with ⟨op, rfl, hop⟩ | ⟨rfl, -⟩
  · simp only at htail
    split at htail
    · cases htail
    · rename_i hlevel
      obtain ⟨right, s₂, hright, hresult⟩ := bind_eq_done htail
      cases hresult
      have h₁ := eats_binaryOp.length hop
      obtain ⟨hright, hatLeast, hblocked⟩ := hbinary (rightLevel op) s₁ right rest (by omega) hright
      exact {
        written := .binary (binaryOp_mem hop) hleft.written hright.written
          (hleft.mayPrecede.isLeftOf hop) (hleft.ends.open_of_binaryOp hop) hatLeast.isRightOf
        ends := .last rfl hright.ends nofun nofun
        noSuffix := hright.noSuffix
        atLeast := Nat.le_of_not_lt hlevel
        mayPrecede := hblocked }
  · cases htail

theorem growing_binaryStep {least : Nat} {left e : Expr} {s rest : List Char}
    (hs : s.length < n + 1) (hleft : Growing src least left s)
    (h : binaryStep (exprAt src) least left s = .done (some e) rest) :
    Growing src least e rest := by
  unfold binaryStep at h
  split at h
  · rename_i hle
    obtain ⟨asks, s₁, hasks, hrest⟩ := bind_eq_done h
    rcases present_eq_done hasks with ⟨rfl, a, hmark⟩ | ⟨rfl, rfl, -⟩
    · obtain ⟨e', s₂, htail, hresult⟩ := bind_eq_done hrest
      cases hresult
      exact growing_ternaryTail hbinary hs hle hleft hmark htail
    · exact growing_operatorTail hbinary hs hleft hrest
  · exact growing_operatorTail hbinary hs hleft h

theorem leaves_climb
    (htight : Leaves (n + 1) (fun e rest => ExprRead src e rest ∧ e.kind.IsOperand) (tightExpr src))
    (least : Nat) : Leaves (n + 1)
      (fun e rest => ExprRead src e rest ∧ IsAtLeast least e.kind ∧ Blocked least rest)
      (climb (tightExpr src) (exprAt src) least) := by
  intro s e rest hs h
  obtain ⟨first, middle, hfirst, h⟩ := bind_eq_done h
  have hmiddle := (eats_tightExpr src).length hfirst
  obtain ⟨hread, hop⟩ := htight s first middle hs hfirst
  have hstep : ∀ (a b : Expr) (s rest : List Char), s.length < n + 1 ∧ Growing src least a s →
      binaryStep (exprAt src) least a s = .done (some b) rest →
      rest.length < n + 1 ∧ Growing src least b rest := by
    rintro a b s rest ⟨hs, ha⟩ hstep
    have hlength := eats_of_binaryStep hstep
    exact ⟨by omega, growing_binaryStep hbinary hs ha hstep⟩
  have hfirst : Growing src least first middle :=
    ⟨hread, isAtLeast_of_isOperand hop least, mayPrecede_of_isOperand hop middle⟩
  obtain ⟨⟨-, hgrown⟩, place, hnone⟩ := grow_eq_done hstep ⟨by omega, hfirst⟩ h
  exact ⟨hgrown.toExprRead, hgrown.atLeast, blocked_of_binaryStep hnone⟩

end

/-! ## All texts -/

theorem leaves_tight_expr (src : Source) (n : Nat) :
    Leaves n (fun e rest => ExprRead src e rest ∧ e.kind.IsOperand) (tightExpr src) ∧
    ∀ least, Leaves n (fun e rest => ExprRead src e rest ∧ IsAtLeast least e.kind ∧
      Blocked least rest) (exprAt src least) := by
  induction n with
  | zero => exact ⟨fun _ _ _ hs => absurd hs (Nat.not_lt_zero _),
      fun _ _ _ _ hs => absurd hs (Nat.not_lt_zero _)⟩
  | succ n ih =>
    obtain ⟨htight, hbinary⟩ := ih
    have hexpr : Leaves n (fun e rest => ExprRead src e rest ∧ Blocked 0 rest) (exprAt src 0) :=
      (hbinary 0).mono fun _ _ h => ⟨h.1, h.2.2⟩
    have htight' : Leaves (n + 1) (fun e rest => ExprRead src e rest ∧ e.kind.IsOperand)
        (tightExpr src) := by
      rw [tightExpr_eq]
      exact leaves_leading hexpr htight
    refine ⟨htight', fun least => ?_⟩
    rw [exprAt_eq]
    exact leaves_climb hbinary htight' least

end Grammar

/-- The expression that a text is read as is written. -/
theorem Expr.written_of_parse {text : String} {pos : Position} {e : Expr}
    (h : Expr.parse text pos = .ok e) : e.kind.Written := by
  obtain ⟨rest, hread⟩ := Entry.done_of_readAll h
  rw [expression_eq] at hread
  exact ((leaves_tight_expr _ _).2 0 _ e rest (Nat.lt_succ_self _) hread).1.written

end HaxeMacro
