import HaxeMacro.Proofs.Parser.Yields
import HaxeMacro.Proofs.Printing.ReadTypes

/-! # What the productions build

Every production builds its form from what the parsers of its parts give, and from types that are
read. A property of all expressions that are read is proved from here, one case a form.
-/

namespace HaxeMacro

open Parser Token Grammar

/-! ## Forms -/

/-- A variable that is read, its initial value an expression with the property. -/
structure Var.BuiltFrom (P : Expr → Prop) (v : Var) : Prop where
  type : ∀ t ∈ v.type, t.Written
  init : ∀ e ∈ v.init, P e
  annotations : v.annotations = []

/-- A parameter that is read, its default value an expression with the property. -/
structure Param.BuiltFrom (P : Expr → Prop) (p : Param) : Prop where
  type : ∀ t ∈ p.type, t.Written
  default : ∀ e ∈ p.default, P e
  annotations : p.annotations = []

namespace ExprKind

/-- The forms that stand without operators around them, built from expressions with the property
`P`; what is cast without a type has the property `T`. -/
inductive Primary (P T : Expr → Prop) : ExprKind → Prop
  | const (c : Constant) : Primary P T (.const c)
  | paren {e : Expr} (h : P e) : Primary P T (.paren e)
  | object {fields : List ObjectField} (h : ∀ field ∈ fields, P field.value) :
    Primary P T (.object fields)
  | array {items : List Expr} (h : ∀ e ∈ items, P e) : Primary P T (.array items)
  | block {items : List Expr} (h : ∀ e ∈ items, P e) : Primary P T (.block items)
  | new {path : TypePath} {args : List Expr} (hpath : path.Written) (h : ∀ e ∈ args, P e) :
    Primary P T (.new path args)
  | vars {vs : List Var} (h : ∀ v ∈ vs, v.BuiltFrom P) : Primary P T (.vars vs)
  | function {params : List Param} {ret : Option ComplexType} {body : Expr} (kind : FunctionKind)
    (hparams : ∀ p ∈ params, p.BuiltFrom P) (hret : ∀ t ∈ ret, t.Written) (h : P body) :
    Primary P T (.function kind ⟨params, ret, some body, []⟩)
  | forIn {range body : Expr} (name : String) (place pos : Position) (hrange : P range)
    (h : P body) :
    Primary P T (.forIn ⟨.binary .isIn (.ident name place) range, pos⟩ body)
  | cond {test yes : Expr} {no : Option Expr} (htest : P test) (hyes : P yes)
    (hno : ∀ e ∈ no, P e) : Primary P T (.cond test yes no)
  | loop {test body : Expr} (htest : P test) (h : P body) (testFirst : Bool) :
    Primary P T (.loop test body testFirst)
  | ret {value : Option Expr} (h : ∀ e ∈ value, P e) : Primary P T (.ret value)
  | brk : Primary P T .brk
  | cont : Primary P T .cont
  | untyped {e : Expr} (h : P e) : Primary P T (.untyped e)
  | throw {e : Expr} (h : P e) : Primary P T (.throw e)
  | castTo {e : Expr} {t : ComplexType} (h : P e) (htype : t.Written) :
    Primary P T (.cast e (some t))
  | cast {e : Expr} (h : T e) : Primary P T (.cast e none)
  | checkType {e : Expr} {t : ComplexType} (h : P e) (htype : t.Written) :
    Primary P T (.checkType e t)
  | annotated {entry : Metadata} {e : Expr} (hentry : ∀ arg ∈ entry.args, P arg) (h : P e) :
    Primary P T (.annotated entry e)

/-- The forms that put something after `e`. -/
inductive Suffixed (P : Expr → Prop) (e : Expr) : ExprKind → Prop
  | field (name : String) : Suffixed P e (.field e name)
  | call {args : List Expr} (h : ∀ arg ∈ args, P arg) : Suffixed P e (.call e args)
  | index {i : Expr} (h : P i) : Suffixed P e (.index e i)
  | unary (op : UnaryOp) : Suffixed P e (.unary op true e)

end ExprKind

namespace Grammar

theorem yields_typeHint (src : Source) :
    Yields (fun t? => ∀ t ∈ t?, ComplexType.Written t) (optional (typeHint (complexType src))) :=
  (Yields.after fun _ _ _ _ h => written_of_complexType h).optional

section

variable {P T : Expr → Prop} (src : Source) {expr tight : Parser Expr} (he : Yields P expr)
  (ht : Yields T tight)

/-! ## Parts -/

section
include he

theorem yields_argumentsTail : Yields (fun args => ∀ e ∈ args, P e) (argumentsTail expr) :=
  he.sepBy.bind fun _ h => Yields.after fun _ => Yields.pure h

theorem yields_arguments : Yields (fun args => ∀ e ∈ args, P e) (arguments expr) :=
  Yields.after fun _ => yields_argumentsTail he

theorem yields_metadata : Yields (fun entry => ∀ e ∈ entry.args, P e) (metadata src expr) := by
  refine Yields.after fun _ => Yields.after fun start => Yields.after fun _ => ?_
  refine Yields.after fun colon => Yields.after fun word => ?_
  have hargs : Yields (fun args => ∀ e ∈ args, P e) (do text "("; argumentsTail expr) :=
    Yields.after fun _ => yields_argumentsTail he
  refine hargs.optional.bind fun args hargs => Yields.after fun stop => Yields.pure ?_
  cases args with
  | none => simp
  | some args => exact hargs args rfl

theorem yields_condition : Yields P (condition expr) :=
  Yields.after fun _ => he.bind fun _ h => Yields.after fun _ => Yields.pure h

theorem yields_varDecl (isFinal isStatic : Bool) :
    Yields (Var.BuiltFrom P) (varDecl src expr isFinal isStatic) := by
  refine Yields.after fun name => (yields_typeHint src).bind fun type htype => ?_
  have hinit : Yields P (do symbol "="; lacks (char fun c => c == '=' || c == '>'); expr) :=
    Yields.after fun _ => Yields.after fun _ => he
  exact hinit.optional.bind fun init hinit => Yields.pure ⟨htype, hinit, rfl⟩

theorem yields_param : Yields (Param.BuiltFrom P) (param src expr) := by
  refine Yields.after fun mark => Yields.after fun name => ?_
  refine (yields_typeHint src).bind fun type htype => ?_
  have hdefault : Yields P (do symbol "="; expr) := Yields.after fun _ => he
  exact hdefault.optional.bind fun default hdefault => Yields.pure ⟨htype, hdefault, rfl⟩

theorem yields_statement : Yields (fun e? => ∀ e ∈ e?, P e) (statement expr) :=
  Yields.or (he.bind fun _ h => Yields.after fun _ => Yields.pure (by simpa using h))
    (Yields.after fun _ => Yields.pure (by simp))

/-! ## Keywords -/

theorem yields_varExpr : Yields (ExprKind.Primary P T) (varExpr src expr) :=
  Yields.after fun isStatic => Yields.after fun isFinal =>
    (yields_varDecl src he isFinal isStatic).sepBy1.bind fun _ h => Yields.pure (.vars h)

theorem yields_functionExpr : Yields (ExprKind.Primary P T) (functionExpr src expr) := by
  refine Yields.after fun _ => Yields.after fun name => Yields.after fun _ => ?_
  refine (yields_param src he).sepBy.bind fun params hparams => Yields.after fun _ => ?_
  exact (yields_typeHint src).bind fun ret hret => he.bind fun body hbody =>
    Yields.pure (.function _ hparams hret hbody)

theorem yields_ifExpr : Yields (ExprKind.Primary P T) (ifExpr expr) := by
  refine Yields.after fun _ => (yields_condition he).bind fun test htest => ?_
  refine he.bind fun yes hyes => ?_
  have hno : Yields P (do let _ ← optional (symbol ";"); keyword "else"; expr) :=
    Yields.after fun _ => Yields.after fun _ => he
  exact hno.optional.bind fun no hno => Yields.pure (.cond htest hyes hno)

theorem yields_whileExpr : Yields (ExprKind.Primary P T) (whileExpr expr) :=
  Yields.after fun _ => (yields_condition he).bind fun _ htest => he.bind fun _ h =>
    Yields.pure (.loop htest h true)

theorem yields_doWhileExpr : Yields (ExprKind.Primary P T) (doWhileExpr expr) := by
  refine Yields.after fun _ => he.bind fun body h => Yields.after fun _ => Yields.after fun _ => ?_
  exact (yields_condition he).bind fun _ htest => Yields.pure (.loop htest h false)

theorem yields_forExpr : Yields (ExprKind.Primary P T) (forExpr src expr) := by
  refine Yields.after fun _ => Yields.after fun _ => Yields.after fun _ => ?_
  refine Yields.after fun start => Yields.after fun name => Yields.after fun stop => ?_
  refine Yields.after fun _ => he.bind fun range hrange => Yields.after fun _ => ?_
  exact he.bind fun body hbody => Yields.pure (.forIn name _ _ hrange hbody)

theorem yields_newExpr : Yields (ExprKind.Primary P T) (newExpr src expr) := by
  refine Yields.after fun _ => Yields.after fun _ => ?_
  have hpath : Yields TypePath.Written (typePath (complexType src)) :=
    fun _ _ _ h => written_of_typePath h
  exact hpath.bind fun path hpath => (yields_arguments he).bind fun args hargs =>
    Yields.pure (.new hpath hargs)

include ht in
theorem yields_castExpr : Yields (ExprKind.Primary P T) (castExpr src expr tight) := by
  refine Yields.after fun _ => ?_
  have hchecked : Yields (ExprKind.Primary P T) (do
      symbol "("
      let e ← expr
      symbol ","
      blanks
      let t ← complexType src
      symbol ")"
      return ExprKind.cast e (some t)) := by
    refine Yields.after fun _ => he.bind fun e h => Yields.after fun _ => Yields.after fun _ => ?_
    have htype : Yields ComplexType.Written (complexType src) :=
      fun _ _ _ h => written_of_complexType h
    exact htype.bind fun t htype => Yields.after fun _ => Yields.pure (.castTo h htype)
  refine hchecked.optional.bind fun checked hchecked => ?_
  cases checked with
  | some kind => exact Yields.pure (hchecked kind rfl)
  | none => exact ht.bind fun e h => Yields.pure (.cast h)

include ht in
theorem yields_keywordExpr : Yields (ExprKind.Primary P T) (keywordExpr src expr tight) := by
  refine Yields.oneOf fun p hp => ?_
  simp only [List.mem_cons, List.not_mem_nil, or_false] at hp
  rcases hp with rfl | rfl | rfl | rfl | rfl | rfl | rfl | rfl | rfl | rfl | rfl | rfl | rfl
  · exact yields_varExpr src he
  · exact yields_functionExpr src he
  · exact yields_ifExpr he
  · exact yields_whileExpr he
  · exact yields_doWhileExpr he
  · exact yields_forExpr src he
  · exact yields_newExpr src he
  · exact yields_castExpr src he ht
  · exact Yields.after fun _ => he.optional.bind fun value h => Yields.pure (.ret h)
  · exact Yields.after fun _ => he.bind fun e h => Yields.pure (.throw h)
  · exact Yields.after fun _ => he.bind fun e h => Yields.pure (.untyped h)
  · exact Yields.after fun _ => Yields.pure .brk
  · exact Yields.after fun _ => Yields.pure .cont

/-! ## Other forms -/

theorem yields_metaExpr : Yields (ExprKind.Primary P T) (metaExpr src expr) :=
  (yields_metadata src he).bind fun _ hentry => he.bind fun _ h =>
    Yields.pure (.annotated hentry h)

theorem yields_parenExpr : Yields (ExprKind.Primary P T) (parenExpr src expr) := by
  refine Yields.after fun _ => he.bind fun inner h => ?_
  refine (yields_typeHint src).bind fun type htype => Yields.after fun _ => ?_
  cases type with
  | some t => exact Yields.pure (.checkType h (htype t rfl))
  | none => exact Yields.pure (.paren h)

theorem yields_arrayExpr : Yields (ExprKind.Primary P T) (arrayExpr expr) :=
  Yields.after fun _ => he.sepBy.bind fun _ h => Yields.after fun _ => Yields.after fun _ =>
    Yields.pure (.array h)

theorem yields_objectTail : Yields (ExprKind.Primary P T) (objectTail expr) := by
  have hfield : Yields (fun field => P field.value) (objectField expr) :=
    Yields.after fun _ => Yields.after fun _ => Yields.after fun _ => he.bind fun _ h =>
      Yields.pure h
  exact hfield.sepBy1.bind fun _ h => Yields.after fun _ => Yields.after fun _ =>
    Yields.pure (.object h)

theorem yields_blockTail : Yields (ExprKind.Primary P T) (blockTail expr) := by
  refine (yields_statement he).many.bind fun statements h => Yields.after fun _ => Yields.pure ?_
  refine .block fun e hmem => ?_
  obtain ⟨statement, hstatement, heq⟩ := List.mem_filterMap.mp hmem
  exact h statement hstatement e heq

theorem yields_braces : Yields (ExprKind.Primary P T) (braces expr) :=
  Yields.after fun _ => (yields_objectTail he).or (yields_blockTail he)

omit he in
theorem yields_constant : Yields (ExprKind.Primary P T) constant := by
  refine Yields.oneOf fun p hp => ?_
  simp only [List.mem_cons, List.not_mem_nil, or_false] at hp
  rcases hp with rfl | rfl | rfl | rfl <;> exact Yields.after fun _ => Yields.pure (.const _)

include ht in
theorem yields_primary : Yields (fun e => e.kind.Primary P T) (primary src expr tight) := by
  refine Yields.after fun _ => Yields.after fun start => ?_
  refine Yields.bind (P := ExprKind.Primary P T) (Yields.oneOf fun p hp => ?_) fun kind h =>
    Yields.after fun stop => Yields.pure h
  simp only [List.mem_cons, List.not_mem_nil, or_false] at hp
  rcases hp with rfl | rfl | rfl | rfl | rfl | rfl
  · exact yields_keywordExpr src he ht
  · exact yields_metaExpr src he
  · exact yields_parenExpr src he
  · exact yields_arrayExpr he
  · exact yields_braces he
  · exact yields_constant

/-! ## Operands -/

theorem yields_suffix (e : Expr) : Yields (ExprKind.Suffixed P e) (suffix expr e) := by
  refine Yields.oneOf fun p hp => ?_
  simp only [List.mem_cons, List.not_mem_nil, or_false] at hp
  rcases hp with rfl | rfl | rfl | rfl
  · exact Yields.after fun _ => Yields.after fun name => Yields.pure (.field name)
  · exact (yields_arguments he).bind fun args h => Yields.pure (.call h)
  · exact Yields.after fun _ => he.bind fun i h => Yields.after fun _ => Yields.pure (.index h)
  · exact Yields.after fun op => Yields.pure (.unary op)

variable {K : ExprKind → Prop} (hprimary : ∀ kind, kind.Primary P T → K kind)
  (hsuffixed : ∀ e kind, K e.kind → kind.Suffixed P e → K kind)
include ht hprimary hsuffixed

/-- What holds of primary expressions, and goes on to what is put after them. -/
theorem yields_postfixed : Yields (fun e => K e.kind) (postfixed src expr tight) := by
  refine Yields.after fun _ => Yields.after fun start => ?_
  refine (yields_primary src he ht).bind fun first hfirst => ?_
  refine Yields.grow (fun e h => ?_) (hprimary first.kind hfirst)
  refine (yields_suffix he e).optional.bind fun kind? hkind => ?_
  cases kind? with
  | none => exact Yields.pure (by simp)
  | some kind =>
    refine Yields.after fun stop => Yields.pure fun b hb => ?_
    rw [← Option.some.inj hb]
    exact hsuffixed e kind h (hkind kind rfl)

/-- What holds of an operand: it comes with a leading operator or without one. -/
theorem yields_leading {L : Expr → Prop} (hbase : ∀ e, K e.kind → L e)
    (happlied : ∀ op e pos, T e → L ⟨applyLeading op e, pos⟩) :
    Yields L (leading src expr tight) := by
  refine Yields.after fun _ => Yields.after fun start => Yields.after fun op? => ?_
  cases op? with
  | some op =>
    exact ht.bind fun inner h => Yields.after fun stop => Yields.pure (happlied op inner _ h)
  | none => exact (yields_postfixed src he ht hprimary hsuffixed).mono hbase

end

end

end Grammar

end HaxeMacro
