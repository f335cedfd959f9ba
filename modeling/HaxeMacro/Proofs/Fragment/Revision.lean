import HaxeMacro.Proofs.Fragment.Visits
import HaxeMacro.Proofs.Printing.Types

/-! # Revisions

A revision changes the constants of a fragment and the positions of its expressions, wherever they
stand, and nothing else. The visits of an expression come by all of them if its types hold no
expressions.
-/

namespace HaxeMacro

/-- The constant, between double quotes if it is a string. -/
def Constant.doubleQuoted : Constant → Constant
  | .string text _ => .string text .double
  | c => c

/-- The position, or `pos` if it is null. -/
def Position.orElse (p pos : Position) : Position := if p.isNull then pos else p

section
variable (c : Constant → Constant) (f : Position → Position)

mutual

/-- The expression with `c` applied to every constant in it, and `f` to the position of every
expression. -/
def Expr.revise : Expr → Expr
  | ⟨kind, pos⟩ => ⟨kind.revise, f pos⟩

def ExprKind.revise : ExprKind → ExprKind
  | .const x => .const (c x)
  | .index a b => .index a.revise b.revise
  | .binary op a b => .binary op a.revise b.revise
  | .field e name => .field e.revise name
  | .paren e => .paren e.revise
  | .object fields => .object (reviseObjectFields fields)
  | .array items => .array (reviseExprs items)
  | .call callee args => .call callee.revise (reviseExprs args)
  | .new path args => .new path.revise (reviseExprs args)
  | .unary op after e => .unary op after e.revise
  | .vars vs => .vars (reviseVars vs)
  | .function kind func => .function kind func.revise
  | .block items => .block (reviseExprs items)
  | .forIn head body => .forIn head.revise body.revise
  | .cond test yes no => .cond test.revise yes.revise (reviseOption no)
  | .loop test body first => .loop test.revise body.revise first
  | .ret value => .ret (reviseOption value)
  | .brk => .brk
  | .cont => .cont
  | .untyped e => .untyped e.revise
  | .throw e => .throw e.revise
  | .cast e type => .cast e.revise (reviseOptionType type)
  | .ternary test yes no => .ternary test.revise yes.revise no.revise
  | .checkType e type => .checkType e.revise type.revise
  | .annotated entry e => .annotated entry.revise e.revise

def reviseExprs : List Expr → List Expr
  | [] => []
  | e :: es => e.revise :: reviseExprs es

def reviseOption : Option Expr → Option Expr
  | none => none
  | some e => some e.revise

def ObjectField.revise : ObjectField → ObjectField
  | ⟨name, value, quoted⟩ => ⟨name, value.revise, quoted⟩

def reviseObjectFields : List ObjectField → List ObjectField
  | [] => []
  | field :: fields => field.revise :: reviseObjectFields fields

def Var.revise : Var → Var
  | ⟨name, type, init, isFinal, isStatic, annotations⟩ =>
    ⟨name, reviseOptionType type, reviseOption init, isFinal, isStatic,
      reviseMetadata annotations⟩

def reviseVars : List Var → List Var
  | [] => []
  | v :: vs => v.revise :: reviseVars vs

def Param.revise : Param → Param
  | ⟨name, optional, type, default, annotations⟩ =>
    ⟨name, optional, reviseOptionType type, reviseOption default, reviseMetadata annotations⟩

def reviseParams : List Param → List Param
  | [] => []
  | p :: ps => p.revise :: reviseParams ps

def FunctionDef.revise : FunctionDef → FunctionDef
  | ⟨params, ret, body, typeParams⟩ =>
    ⟨reviseParams params, reviseOptionType ret, reviseOption body, reviseTypeParams typeParams⟩

def TypePath.revise : TypePath → TypePath
  | ⟨pack, name, args, sub⟩ => ⟨pack, name, reviseTypeArgs args, sub⟩

def TypeArg.revise : TypeArg → TypeArg
  | .type t => .type t.revise
  | .expr e => .expr e.revise

def reviseTypeArgs : List TypeArg → List TypeArg
  | [] => []
  | a :: as => a.revise :: reviseTypeArgs as

def ComplexType.revise : ComplexType → ComplexType
  | .path p => .path p.revise
  | .function args ret => .function (reviseTypes args) ret.revise
  | .anonymous fields => .anonymous (reviseFields fields)
  | .paren t => .paren t.revise
  | .optional t => .optional t.revise
  | .named name t => .named name t.revise

def reviseTypes : List ComplexType → List ComplexType
  | [] => []
  | t :: ts => t.revise :: reviseTypes ts

def reviseOptionType : Option ComplexType → Option ComplexType
  | none => none
  | some t => some t.revise

def TypeParamDecl.revise : TypeParamDecl → TypeParamDecl
  | ⟨name, constraints, params, annotations⟩ =>
    ⟨name, reviseTypes constraints, reviseTypeParams params, reviseMetadata annotations⟩

def reviseTypeParams : List TypeParamDecl → List TypeParamDecl
  | [] => []
  | t :: ts => t.revise :: reviseTypeParams ts

def Metadata.revise : Metadata → Metadata
  | ⟨name, args, pos⟩ => ⟨name, reviseExprs args, pos⟩

def reviseMetadata : List Metadata → List Metadata
  | [] => []
  | m :: ms => m.revise :: reviseMetadata ms

def FieldKind.revise : FieldKind → FieldKind
  | .var type init => .var (reviseOptionType type) (reviseOption init)
  | .method func => .method func.revise
  | .property getter setter type init =>
    .property getter setter (reviseOptionType type) (reviseOption init)

def Field.revise : Field → Field
  | ⟨name, doc, access, kind, pos, annotations⟩ =>
    ⟨name, doc, access, kind.revise, pos, reviseMetadata annotations⟩

def reviseFields : List Field → List Field
  | [] => []
  | field :: fields => field.revise :: reviseFields fields

end

/-! ## Lists and options of parts -/

theorem reviseExprs_eq_map (es : List Expr) : reviseExprs c f es = es.map (·.revise c f) :=
  eq_map_of_cons rfl (fun _ _ => rfl) es

theorem reviseObjectFields_eq_map (fields : List ObjectField) :
    reviseObjectFields c f fields =
      fields.map fun field => { field with value := field.value.revise c f } := by
  refine eq_map_of_cons rfl ?_ fields
  rintro ⟨name, value, quoted⟩ fields
  rfl

theorem reviseVars_eq_map (vs : List Var) : reviseVars c f vs = vs.map (·.revise c f) :=
  eq_map_of_cons rfl (fun _ _ => rfl) vs

theorem reviseParams_eq_map (ps : List Param) : reviseParams c f ps = ps.map (·.revise c f) :=
  eq_map_of_cons rfl (fun _ _ => rfl) ps

theorem reviseTypeArgs_eq_map (as : List TypeArg) :
    reviseTypeArgs c f as = as.map (·.revise c f) :=
  eq_map_of_cons rfl (fun _ _ => rfl) as

theorem reviseTypes_eq_map (ts : List ComplexType) :
    reviseTypes c f ts = ts.map (·.revise c f) :=
  eq_map_of_cons rfl (fun _ _ => rfl) ts

theorem reviseFields_eq_map (fields : List Field) :
    reviseFields c f fields = fields.map (·.revise c f) :=
  eq_map_of_cons rfl (fun _ _ => rfl) fields

theorem reviseOption_eq_map (e? : Option Expr) :
    reviseOption c f e? = e?.map (·.revise c f) := by
  cases e? <;> rfl

/-! ## Types that are read -/

theorem Field.IsAnonymous.revise_eq {field : Field} (h : field.IsAnonymous)
    (htype : ∀ t, field.kind = .var (some t) none → t.revise c f = t) :
    field.revise c f = field := by
  obtain ⟨t, hkind⟩ := h.kind
  have ht := htype t hkind
  have hannotations := h.annotations
  obtain ⟨name, doc, access, kind, pos, annotations⟩ := field
  cases hkind
  simp only at hannotations
  rcases hannotations with rfl | rfl <;>
    simp [Field.revise, FieldKind.revise, reviseOptionType, reviseOption, reviseMetadata,
      Metadata.revise, reviseExprs, ht]

/-- A revision leaves the types alone that are read from texts. -/
theorem ComplexType.Written.revise_eq {t : ComplexType} (h : t.Written) : t.revise c f = t := by
  induction h with
  | @path pack name args sub _ _ _ ih =>
    have hargs : (args.map TypeArg.type).map (·.revise c f) = args.map .type := by
      rw [List.map_map]
      exact List.map_congr_left fun t ht => congrArg TypeArg.type (ih t ht)
    rw [ComplexType.revise, TypePath.revise, reviseTypeArgs_eq_map, hargs]
  | @function args ret _ _ _ _ _ ihargs ihret =>
    rw [ComplexType.revise, reviseTypes_eq_map, List.map_congr_left ihargs, List.map_id', ihret]
  | @anonymous fields hshape _ ih =>
    rw [ComplexType.revise, reviseFields_eq_map,
      List.map_congr_left fun field hf => (hshape field hf).revise_eq c f (ih field hf),
      List.map_id']
  | paren _ ih => rw [ComplexType.revise, ih]
  | optional _ _ ih => rw [ComplexType.revise, ih]

theorem TypePath.Written.revise_eq {path : TypePath} (h : path.Written) :
    path.revise c f = path := by
  have h := ComplexType.Written.revise_eq c f h
  rw [ComplexType.revise] at h
  exact ComplexType.path.inj h

theorem reviseOptionType_of_written {t? : Option ComplexType} (h : ∀ t ∈ t?, t.Written) :
    reviseOptionType c f t? = t? := by
  cases t? with
  | none => rfl
  | some t => rw [reviseOptionType, (h t rfl).revise_eq]

end

/-! ## Expressions whose types are read -/

structure Var.Plain (v : Var) : Prop where
  type : ∀ t ∈ v.type, t.Written
  annotations : v.annotations = []

structure Param.Plain (p : Param) : Prop where
  type : ∀ t ∈ p.type, t.Written
  annotations : p.annotations = []

structure FunctionDef.Plain (func : FunctionDef) : Prop where
  params : ∀ p ∈ func.params, p.Plain
  ret : ∀ t ∈ func.ret, t.Written
  typeParams : func.typeParams = []

/-- The types that stand in the form itself are read from texts, and nothing is annotated. -/
def ExprKind.HasPlainTypes : ExprKind → Prop
  | .new path _ => path.Written
  | .cast _ type => ∀ t ∈ type, t.Written
  | .checkType _ type => type.Written
  | .vars vs => ∀ v ∈ vs, v.Plain
  | .function _ func => func.Plain
  | _ => True

/-- The types in the expression and in all expressions inside it are read from texts. -/
inductive Expr.Plain : Expr → Prop
  | mk {kind : ExprKind} {pos : Position} (types : kind.HasPlainTypes)
    (children : ∀ e ∈ kind.children, e.Plain) : Plain ⟨kind, pos⟩

def ExprKind.mapConstant (c : Constant → Constant) : ExprKind → ExprKind
  | .const x => .const (c x)
  | kind => kind

theorem ExprKind.mapChildren_mapConstant (c : Constant → Constant) (g : Expr → Expr)
    (kind : ExprKind) :
    (kind.mapConstant c).mapChildren g = (kind.mapChildren g).mapConstant c := by
  cases kind <;> rfl

section
variable (c : Constant → Constant) (f : Position → Position)

theorem Var.Plain.revise_eq {v : Var} (h : v.Plain) :
    v.revise c f = { v with init := v.init.map (·.revise c f) } := by
  obtain ⟨name, type, init, isFinal, isStatic, annotations⟩ := v
  obtain ⟨htype, rfl⟩ := h
  rw [Var.revise, reviseOptionType_of_written c f htype, reviseOption_eq_map]
  rfl

theorem Param.Plain.revise_eq {p : Param} (h : p.Plain) :
    p.revise c f = { p with default := p.default.map (·.revise c f) } := by
  obtain ⟨name, optional, type, default, annotations⟩ := p
  obtain ⟨htype, rfl⟩ := h
  rw [Param.revise, reviseOptionType_of_written c f htype, reviseOption_eq_map]
  rfl

theorem FunctionDef.Plain.revise_eq {func : FunctionDef} (h : func.Plain) :
    func.revise c f = func.mapChildren (·.revise c f) := by
  obtain ⟨params, ret, body, typeParams⟩ := func
  obtain ⟨hparams, hret, rfl⟩ := h
  rw [FunctionDef.revise, reviseParams_eq_map, reviseOptionType_of_written c f hret,
    reviseOption_eq_map, List.map_congr_left fun p hp => (hparams p hp).revise_eq c f]
  rfl

/-- Where the types are read from texts, a revision changes the constant and the direct
sub-expressions. -/
theorem ExprKind.HasPlainTypes.revise_eq {kind : ExprKind} (h : kind.HasPlainTypes) :
    kind.revise c f = (kind.mapChildren (·.revise c f)).mapConstant c := by
  cases kind with
  | new path args =>
    rw [ExprKind.revise, TypePath.Written.revise_eq c f h, reviseExprs_eq_map]
    rfl
  | cast e type =>
    rw [ExprKind.revise, reviseOptionType_of_written c f h]
    rfl
  | checkType e type =>
    rw [ExprKind.revise, ComplexType.Written.revise_eq c f h]
    rfl
  | vars vs =>
    rw [ExprKind.revise, reviseVars_eq_map, List.map_congr_left fun v hv => (h v hv).revise_eq c f]
    rfl
  | function kind func =>
    rw [ExprKind.revise, FunctionDef.Plain.revise_eq c f h]
    rfl
  | object fields =>
    rw [ExprKind.revise, reviseObjectFields_eq_map]
    rfl
  | array items | block items | call _ items =>
    rw [ExprKind.revise, reviseExprs_eq_map]
    rfl
  | cond _ _ value | ret value =>
    rw [ExprKind.revise, reviseOption_eq_map]
    rfl
  | annotated entry e =>
    obtain ⟨name, args, pos⟩ := entry
    rw [ExprKind.revise, Metadata.revise, reviseExprs_eq_map]
    rfl
  | _ => rfl

theorem Expr.mapConstants_eq (kind : ExprKind) (pos : Position) :
    Expr.mapConstants c ⟨kind, pos⟩ =
      ⟨(kind.mapChildren (·.mapConstants c)).mapConstant c, pos⟩ := by
  rw [Expr.mapConstants, Expr.mapUp_eq]
  cases kind <;> rfl

/-- Two replacements from the bottom, first of the constants and then of the positions, are a
revision. -/
theorem Expr.Plain.revise_eq {e : Expr} (h : e.Plain) :
    (e.mapConstants c).mapUp (fun node => ⟨node.kind, f node.pos⟩) = e.revise c f := by
  let place (e : Expr) : Expr := e.mapUp fun node => ⟨node.kind, f node.pos⟩
  induction h with
  | @mk kind pos htypes _ ih =>
    have hchildren : (kind.mapChildren (·.mapConstants c)).mapChildren place =
        kind.mapChildren (·.revise c f) :=
      (ExprKind.mapChildren_mapChildren _ place kind).trans (ExprKind.mapChildren_congr ih)
    rw [mapConstants_eq, Expr.mapUp_eq, ExprKind.mapChildren_mapConstant, hchildren, Expr.revise,
      htypes.revise_eq]

end

theorem Expr.fillPositions_eq_mapUp (pos : Position) (e : Expr) :
    e.fillPositions pos = e.mapUp fun node => ⟨node.kind, node.pos.orElse pos⟩ := by
  have hfill : (fun node : Expr => if node.pos.isNull then { node with pos } else node) =
      fun node => ⟨node.kind, node.pos.orElse pos⟩ := by
    funext node
    obtain ⟨kind, place⟩ := node
    unfold Position.orElse
    split <;> rfl
  rw [fillPositions, hfill]

/-- What a macro gets as its argument, and gives back, comes back revised. -/
theorem Expr.Plain.fillPositions_normalizeQuotes {e : Expr} (h : e.Plain) (pos : Position) :
    e.normalizeQuotes.fillPositions pos = e.revise Constant.doubleQuoted (·.orElse pos) := by
  rw [← h.revise_eq, fillPositions_eq_mapUp]
  rfl

end HaxeMacro
