import HaxeMacro.Entries
import HaxeMacro.Fragment.Basic

/-! # Fragments in other places

A fragment says the same wherever it stands: its positions can be exchanged for others, or left out
of account.
-/

namespace HaxeMacro

section
variable (f : Position → Position)

mutual

/-- The expression with `f` applied to every position in it. -/
def Expr.relocate : Expr → Expr
  | ⟨kind, pos⟩ => ⟨kind.relocate, f pos⟩

def ExprKind.relocate : ExprKind → ExprKind
  | .const c => .const c
  | .index e i => .index e.relocate i.relocate
  | .binary op l r => .binary op l.relocate r.relocate
  | .field e name => .field e.relocate name
  | .paren e => .paren e.relocate
  | .object fields => .object (relocateObjectFields fields)
  | .array items => .array (relocateExprs items)
  | .call callee args => .call callee.relocate (relocateExprs args)
  | .new path args => .new path.relocate (relocateExprs args)
  | .unary op after e => .unary op after e.relocate
  | .vars vs => .vars (relocateVars vs)
  | .function kind func => .function kind func.relocate
  | .block items => .block (relocateExprs items)
  | .forIn head body => .forIn head.relocate body.relocate
  | .cond test yes no => .cond test.relocate yes.relocate (relocateOption no)
  | .loop test body first => .loop test.relocate body.relocate first
  | .ret value => .ret (relocateOption value)
  | .brk => .brk
  | .cont => .cont
  | .untyped e => .untyped e.relocate
  | .throw e => .throw e.relocate
  | .cast e type => .cast e.relocate (relocateOptionType type)
  | .ternary test yes no => .ternary test.relocate yes.relocate no.relocate
  | .checkType e type => .checkType e.relocate type.relocate
  | .annotated entry e => .annotated entry.relocate e.relocate

def relocateExprs : List Expr → List Expr
  | [] => []
  | e :: es => e.relocate :: relocateExprs es

def relocateOption : Option Expr → Option Expr
  | none => none
  | some e => some e.relocate

def ObjectField.relocate : ObjectField → ObjectField
  | ⟨name, value, quoted⟩ => ⟨name, value.relocate, quoted⟩

def relocateObjectFields : List ObjectField → List ObjectField
  | [] => []
  | field :: fields => field.relocate :: relocateObjectFields fields

def Var.relocate : Var → Var
  | ⟨name, type, init, isFinal, isStatic, annotations⟩ =>
    ⟨name, relocateOptionType type, relocateOption init, isFinal, isStatic,
      relocateMetadata annotations⟩

def relocateVars : List Var → List Var
  | [] => []
  | v :: vs => v.relocate :: relocateVars vs

def Param.relocate : Param → Param
  | ⟨name, optional, type, default, annotations⟩ =>
    ⟨name, optional, relocateOptionType type, relocateOption default,
      relocateMetadata annotations⟩

def relocateParams : List Param → List Param
  | [] => []
  | p :: ps => p.relocate :: relocateParams ps

def FunctionDef.relocate : FunctionDef → FunctionDef
  | ⟨params, ret, body, typeParams⟩ =>
    ⟨relocateParams params, relocateOptionType ret, relocateOption body,
      relocateTypeParams typeParams⟩

def TypePath.relocate : TypePath → TypePath
  | ⟨pack, name, args, sub⟩ => ⟨pack, name, relocateTypeArgs args, sub⟩

def TypeArg.relocate : TypeArg → TypeArg
  | .type t => .type t.relocate
  | .expr e => .expr e.relocate

def relocateTypeArgs : List TypeArg → List TypeArg
  | [] => []
  | a :: as => a.relocate :: relocateTypeArgs as

def ComplexType.relocate : ComplexType → ComplexType
  | .path p => .path p.relocate
  | .function args ret => .function (relocateTypes args) ret.relocate
  | .anonymous fields => .anonymous (relocateFields fields)
  | .paren t => .paren t.relocate
  | .optional t => .optional t.relocate
  | .named name t => .named name t.relocate

def relocateTypes : List ComplexType → List ComplexType
  | [] => []
  | t :: ts => t.relocate :: relocateTypes ts

def relocateOptionType : Option ComplexType → Option ComplexType
  | none => none
  | some t => some t.relocate

def TypeParamDecl.relocate : TypeParamDecl → TypeParamDecl
  | ⟨name, constraints, params, annotations⟩ =>
    ⟨name, relocateTypes constraints, relocateTypeParams params, relocateMetadata annotations⟩

def relocateTypeParams : List TypeParamDecl → List TypeParamDecl
  | [] => []
  | t :: ts => t.relocate :: relocateTypeParams ts

def Metadata.relocate : Metadata → Metadata
  | ⟨name, args, pos⟩ => ⟨name, relocateExprs args, f pos⟩

def relocateMetadata : List Metadata → List Metadata
  | [] => []
  | m :: ms => m.relocate :: relocateMetadata ms

def FieldKind.relocate : FieldKind → FieldKind
  | .var type init => .var (relocateOptionType type) (relocateOption init)
  | .method func => .method func.relocate
  | .property getter setter type init =>
    .property getter setter (relocateOptionType type) (relocateOption init)

def Field.relocate : Field → Field
  | ⟨name, doc, access, kind, pos, annotations⟩ =>
    ⟨name, doc, access, kind.relocate, f pos, relocateMetadata annotations⟩

def relocateFields : List Field → List Field
  | [] => []
  | field :: fields => field.relocate :: relocateFields fields

end

end

/-! ## Lists and options of parts -/

section
variable (f : Position → Position)

theorem relocateExprs_eq_map (es : List Expr) : relocateExprs f es = es.map (·.relocate f) :=
  eq_map_of_cons rfl (fun _ _ => rfl) es

theorem relocateObjectFields_eq_map (fields : List ObjectField) :
    relocateObjectFields f fields = fields.map (·.relocate f) :=
  eq_map_of_cons rfl (fun _ _ => rfl) fields

theorem relocateVars_eq_map (vs : List Var) : relocateVars f vs = vs.map (·.relocate f) :=
  eq_map_of_cons rfl (fun _ _ => rfl) vs

theorem relocateParams_eq_map (ps : List Param) : relocateParams f ps = ps.map (·.relocate f) :=
  eq_map_of_cons rfl (fun _ _ => rfl) ps

theorem relocateTypeArgs_eq_map (as : List TypeArg) :
    relocateTypeArgs f as = as.map (·.relocate f) :=
  eq_map_of_cons rfl (fun _ _ => rfl) as

theorem relocateTypes_eq_map (ts : List ComplexType) :
    relocateTypes f ts = ts.map (·.relocate f) :=
  eq_map_of_cons rfl (fun _ _ => rfl) ts

theorem relocateFields_eq_map (fs : List Field) : relocateFields f fs = fs.map (·.relocate f) :=
  eq_map_of_cons rfl (fun _ _ => rfl) fs

theorem relocateOption_eq_map (e? : Option Expr) :
    relocateOption f e? = e?.map (·.relocate f) := by
  cases e? <;> rfl

theorem relocateOptionType_eq_map (t? : Option ComplexType) :
    relocateOptionType f t? = t?.map (·.relocate f) := by
  cases t? <;> rfl

@[simp] theorem Expr.relocate_pos (e : Expr) : (e.relocate f).pos = f e.pos := by
  cases e
  rfl

@[simp] theorem Expr.relocate_kind (e : Expr) : (e.relocate f).kind = e.kind.relocate f := by
  cases e
  rfl

end

/-! ## The same place -/

mutual

theorem Expr.relocate_id : (e : Expr) → e.relocate id = e
  | ⟨kind, pos⟩ => by rw [Expr.relocate, ExprKind.relocate_id kind, id]

theorem ExprKind.relocate_id : (kind : ExprKind) → kind.relocate id = kind
  | .const _ | .brk | .cont => rfl
  | .index a b | .binary _ a b | .forIn a b | .loop a b _ => by
    rw [ExprKind.relocate, Expr.relocate_id a, Expr.relocate_id b]
  | .field e _ | .paren e | .unary _ _ e | .untyped e | .throw e => by
    rw [ExprKind.relocate, Expr.relocate_id e]
  | .cast e type => by
    rw [ExprKind.relocate, Expr.relocate_id e, relocateOptionType_id type]
  | .checkType e t => by rw [ExprKind.relocate, Expr.relocate_id e, ComplexType.relocate_id t]
  | .object fields => by rw [ExprKind.relocate, relocateObjectFields_id fields]
  | .array items | .block items => by rw [ExprKind.relocate, relocateExprs_id items]
  | .call callee args => by
    rw [ExprKind.relocate, Expr.relocate_id callee, relocateExprs_id args]
  | .new path args => by rw [ExprKind.relocate, TypePath.relocate_id path, relocateExprs_id args]
  | .vars vs => by rw [ExprKind.relocate, relocateVars_id vs]
  | .function _ func => by rw [ExprKind.relocate, FunctionDef.relocate_id func]
  | .cond test yes no => by
    rw [ExprKind.relocate, Expr.relocate_id test, Expr.relocate_id yes, relocateOption_id no]
  | .ret value => by rw [ExprKind.relocate, relocateOption_id value]
  | .ternary test yes no => by
    rw [ExprKind.relocate, Expr.relocate_id test, Expr.relocate_id yes, Expr.relocate_id no]
  | .annotated entry e => by
    rw [ExprKind.relocate, Metadata.relocate_id entry, Expr.relocate_id e]

theorem relocateExprs_id : (es : List Expr) → relocateExprs id es = es
  | [] => rfl
  | e :: es => by rw [relocateExprs, Expr.relocate_id e, relocateExprs_id es]

theorem relocateOption_id : (e? : Option Expr) → relocateOption id e? = e?
  | none => rfl
  | some e => by rw [relocateOption, Expr.relocate_id e]

theorem ObjectField.relocate_id : (field : ObjectField) → field.relocate id = field
  | ⟨_, value, _⟩ => by rw [ObjectField.relocate, Expr.relocate_id value]

theorem relocateObjectFields_id :
    (fields : List ObjectField) → relocateObjectFields id fields = fields
  | [] => rfl
  | field :: fields => by
    rw [relocateObjectFields, ObjectField.relocate_id field, relocateObjectFields_id fields]

theorem Var.relocate_id : (v : Var) → v.relocate id = v
  | ⟨_, type, init, _, _, annotations⟩ => by
    rw [Var.relocate, relocateOptionType_id type, relocateOption_id init,
      relocateMetadata_id annotations]

theorem relocateVars_id : (vs : List Var) → relocateVars id vs = vs
  | [] => rfl
  | v :: vs => by rw [relocateVars, Var.relocate_id v, relocateVars_id vs]

theorem Param.relocate_id : (p : Param) → p.relocate id = p
  | ⟨_, _, type, default, annotations⟩ => by
    rw [Param.relocate, relocateOptionType_id type, relocateOption_id default,
      relocateMetadata_id annotations]

theorem relocateParams_id : (ps : List Param) → relocateParams id ps = ps
  | [] => rfl
  | p :: ps => by rw [relocateParams, Param.relocate_id p, relocateParams_id ps]

theorem FunctionDef.relocate_id : (func : FunctionDef) → func.relocate id = func
  | ⟨params, ret, body, typeParams⟩ => by
    rw [FunctionDef.relocate, relocateParams_id params, relocateOptionType_id ret,
      relocateOption_id body, relocateTypeParams_id typeParams]

theorem TypePath.relocate_id : (path : TypePath) → path.relocate id = path
  | ⟨_, _, args, _⟩ => by rw [TypePath.relocate, relocateTypeArgs_id args]

theorem TypeArg.relocate_id : (a : TypeArg) → a.relocate id = a
  | .type t => by rw [TypeArg.relocate, ComplexType.relocate_id t]
  | .expr e => by rw [TypeArg.relocate, Expr.relocate_id e]

theorem relocateTypeArgs_id : (as : List TypeArg) → relocateTypeArgs id as = as
  | [] => rfl
  | a :: as => by rw [relocateTypeArgs, TypeArg.relocate_id a, relocateTypeArgs_id as]

theorem ComplexType.relocate_id : (t : ComplexType) → t.relocate id = t
  | .path p => by rw [ComplexType.relocate, TypePath.relocate_id p]
  | .function args ret => by
    rw [ComplexType.relocate, relocateTypes_id args, ComplexType.relocate_id ret]
  | .anonymous fields => by rw [ComplexType.relocate, relocateFields_id fields]
  | .paren t | .optional t | .named _ t => by
    rw [ComplexType.relocate, ComplexType.relocate_id t]

theorem relocateTypes_id : (ts : List ComplexType) → relocateTypes id ts = ts
  | [] => rfl
  | t :: ts => by rw [relocateTypes, ComplexType.relocate_id t, relocateTypes_id ts]

theorem relocateOptionType_id : (t? : Option ComplexType) → relocateOptionType id t? = t?
  | none => rfl
  | some t => by rw [relocateOptionType, ComplexType.relocate_id t]

theorem TypeParamDecl.relocate_id : (t : TypeParamDecl) → t.relocate id = t
  | ⟨_, constraints, params, annotations⟩ => by
    rw [TypeParamDecl.relocate, relocateTypes_id constraints, relocateTypeParams_id params,
      relocateMetadata_id annotations]

theorem relocateTypeParams_id : (ts : List TypeParamDecl) → relocateTypeParams id ts = ts
  | [] => rfl
  | t :: ts => by rw [relocateTypeParams, TypeParamDecl.relocate_id t, relocateTypeParams_id ts]

theorem Metadata.relocate_id : (m : Metadata) → m.relocate id = m
  | ⟨_, args, _⟩ => by rw [Metadata.relocate, relocateExprs_id args, id]

theorem relocateMetadata_id : (ms : List Metadata) → relocateMetadata id ms = ms
  | [] => rfl
  | m :: ms => by rw [relocateMetadata, Metadata.relocate_id m, relocateMetadata_id ms]

theorem FieldKind.relocate_id : (kind : FieldKind) → kind.relocate id = kind
  | .var type init => by
    rw [FieldKind.relocate, relocateOptionType_id type, relocateOption_id init]
  | .method func => by rw [FieldKind.relocate, FunctionDef.relocate_id func]
  | .property _ _ type init => by
    rw [FieldKind.relocate, relocateOptionType_id type, relocateOption_id init]

theorem Field.relocate_id : (field : Field) → field.relocate id = field
  | ⟨_, _, _, kind, _, annotations⟩ => by
    rw [Field.relocate, FieldKind.relocate_id kind, relocateMetadata_id annotations, id]

theorem relocateFields_id : (fields : List Field) → relocateFields id fields = fields
  | [] => rfl
  | field :: fields => by rw [relocateFields, Field.relocate_id field, relocateFields_id fields]

end

/-! ## No positions at all -/

/-- The expression without regard to its positions. -/
def Expr.unplaced (e : Expr) : Expr := e.relocate fun _ => .null

/-- The type without regard to the positions in it. -/
def ComplexType.unplaced (t : ComplexType) : ComplexType := t.relocate fun _ => .null

end HaxeMacro
