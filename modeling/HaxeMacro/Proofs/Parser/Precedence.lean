import HaxeMacro.Entries
import HaxeMacro.Fragment.Basic

/-! # Expressions that are grouped by precedence

In an expression that is grouped by the levels of its operators, no operand has an operator that
binds too loosely for its place: such an operand stands in parentheses.
-/

namespace HaxeMacro

/-! ## One expression -/

/-- The level of assignments, the loosest one. -/
def assignmentLevel : Nat := 1

namespace ExprKind

/-- What may stand after a leading operator without parentheses. -/
def IsOperand : ExprKind → Prop
  | .binary .. | .ternary .. => False
  | _ => True

/-- What may stand before a field, a call, an index or a trailing operator without parentheses. -/
def IsBase : ExprKind → Prop
  | .binary .. | .ternary .. | .unary _ false _ => False
  | _ => True

/-- What may stand to the left of a binary operator without parentheses. -/
def IsLeftOf (op : BinaryOp) : ExprKind → Prop
  | .binary inner _ _ =>
    op.level < inner.level ∨ op.level = inner.level ∧ inner.groupsRight = false
  | .ternary .. => op.level = assignmentLevel
  | _ => True

/-- What may stand to the right of a binary operator without parentheses. -/
def IsRightOf (op : BinaryOp) : ExprKind → Prop
  | .binary inner _ _ =>
    op.level < inner.level ∨ op.level = inner.level ∧ inner.groupsRight = true
  | .ternary .. => op.level = assignmentLevel
  | _ => True

/-- What may be the last part of a ternary without parentheses. -/
def IsAlternative : ExprKind → Prop
  | .binary op _ _ => op.level ≠ assignmentLevel
  | _ => True

/-- What may be the condition of a ternary without parentheses. -/
def IsTest : ExprKind → Prop
  | .binary op _ _ => op.level ≠ assignmentLevel
  | .ternary .. => False
  | _ => True

/-- The head `name in range` of a loop. -/
def IsHead : ExprKind → Prop
  | .binary .isIn left _ => ∃ name, left.kind = .const (.ident name)
  | _ => False

/-- The direct parts of the expression may stand where they do. -/
def Grouped : ExprKind → Prop
  | .binary op left right => left.kind.IsLeftOf op ∧ right.kind.IsRightOf op
  | .ternary test _ no => test.kind.IsTest ∧ no.kind.IsAlternative
  | .unary _ false e | .cast e none => e.kind.IsOperand
  | .unary _ true e | .field e _ | .call e _ | .index e _ => e.kind.IsBase
  | .forIn head _ => head.kind.IsHead
  | _ => True

theorem IsBase.isOperand {kind : ExprKind} (h : kind.IsBase) : kind.IsOperand := by
  cases kind <;> trivial

end ExprKind

/-! ## All expressions -/

mutual

/-- The expression and all expressions inside it are grouped; of the head of a loop, only those
inside it are. -/
def Expr.WellGrouped : Expr → Prop
  | ⟨kind, _⟩ => kind.Grouped ∧ kind.GroupedInside

def Expr.GroupedInside : Expr → Prop
  | ⟨kind, _⟩ => kind.GroupedInside

def ExprKind.GroupedInside : ExprKind → Prop
  | .const _ | .brk | .cont => True
  | .index a b | .binary _ a b | .loop a b _ => a.WellGrouped ∧ b.WellGrouped
  | .forIn head body => head.GroupedInside ∧ body.WellGrouped
  | .field e _ | .paren e | .unary _ _ e | .untyped e | .throw e => e.WellGrouped
  | .cast e type => e.WellGrouped ∧ groupedOptionType type
  | .checkType e type => e.WellGrouped ∧ type.WellGrouped
  | .object fields => groupedObjectFields fields
  | .array items | .block items => groupedExprs items
  | .call callee args => callee.WellGrouped ∧ groupedExprs args
  | .new path args => path.WellGrouped ∧ groupedExprs args
  | .vars vs => groupedVars vs
  | .function _ func => func.WellGrouped
  | .cond test yes no => test.WellGrouped ∧ yes.WellGrouped ∧ groupedOption no
  | .ret value => groupedOption value
  | .ternary test yes no => test.WellGrouped ∧ yes.WellGrouped ∧ no.WellGrouped
  | .annotated entry e => entry.WellGrouped ∧ e.WellGrouped

def groupedExprs : List Expr → Prop
  | [] => True
  | e :: es => e.WellGrouped ∧ groupedExprs es

def groupedOption : Option Expr → Prop
  | none => True
  | some e => e.WellGrouped

def ObjectField.WellGrouped : ObjectField → Prop
  | ⟨_, value, _⟩ => value.WellGrouped

def groupedObjectFields : List ObjectField → Prop
  | [] => True
  | field :: fields => field.WellGrouped ∧ groupedObjectFields fields

def Var.WellGrouped : Var → Prop
  | ⟨_, type, init, _, _, annotations⟩ =>
    groupedOptionType type ∧ groupedOption init ∧ groupedMetadata annotations

def groupedVars : List Var → Prop
  | [] => True
  | v :: vs => v.WellGrouped ∧ groupedVars vs

def Param.WellGrouped : Param → Prop
  | ⟨_, _, type, default, annotations⟩ =>
    groupedOptionType type ∧ groupedOption default ∧ groupedMetadata annotations

def groupedParams : List Param → Prop
  | [] => True
  | p :: ps => p.WellGrouped ∧ groupedParams ps

def FunctionDef.WellGrouped : FunctionDef → Prop
  | ⟨params, ret, body, typeParams⟩ =>
    groupedParams params ∧ groupedOptionType ret ∧ groupedOption body ∧
      groupedTypeParams typeParams

def TypePath.WellGrouped : TypePath → Prop
  | ⟨_, _, args, _⟩ => groupedTypeArgs args

def TypeArg.WellGrouped : TypeArg → Prop
  | .type t => t.WellGrouped
  | .expr e => e.WellGrouped

def groupedTypeArgs : List TypeArg → Prop
  | [] => True
  | a :: as => a.WellGrouped ∧ groupedTypeArgs as

def ComplexType.WellGrouped : ComplexType → Prop
  | .path p => p.WellGrouped
  | .function args ret => groupedTypes args ∧ ret.WellGrouped
  | .anonymous fields => groupedFields fields
  | .paren t | .optional t | .named _ t => t.WellGrouped

def groupedTypes : List ComplexType → Prop
  | [] => True
  | t :: ts => t.WellGrouped ∧ groupedTypes ts

def groupedOptionType : Option ComplexType → Prop
  | none => True
  | some t => t.WellGrouped

def TypeParamDecl.WellGrouped : TypeParamDecl → Prop
  | ⟨_, constraints, params, annotations⟩ =>
    groupedTypes constraints ∧ groupedTypeParams params ∧ groupedMetadata annotations

def groupedTypeParams : List TypeParamDecl → Prop
  | [] => True
  | t :: ts => t.WellGrouped ∧ groupedTypeParams ts

def Metadata.WellGrouped : Metadata → Prop
  | ⟨_, args, _⟩ => groupedExprs args

def groupedMetadata : List Metadata → Prop
  | [] => True
  | m :: ms => m.WellGrouped ∧ groupedMetadata ms

def FieldKind.WellGrouped : FieldKind → Prop
  | .var type init | .property _ _ type init => groupedOptionType type ∧ groupedOption init
  | .method func => func.WellGrouped

def Field.WellGrouped : Field → Prop
  | ⟨_, _, _, kind, _, annotations⟩ => kind.WellGrouped ∧ groupedMetadata annotations

def groupedFields : List Field → Prop
  | [] => True
  | field :: fields => field.WellGrouped ∧ groupedFields fields

end

/-! ## Lists and options of parts -/

theorem groupedExprs_iff (es : List Expr) : groupedExprs es ↔ ∀ e ∈ es, e.WellGrouped :=
  forall_iff_of_cons Iff.rfl (fun _ _ => Iff.rfl) es

theorem groupedObjectFields_iff (fields : List ObjectField) :
    groupedObjectFields fields ↔ ∀ field ∈ fields, field.WellGrouped :=
  forall_iff_of_cons Iff.rfl (fun _ _ => Iff.rfl) fields

theorem groupedVars_iff (vs : List Var) : groupedVars vs ↔ ∀ v ∈ vs, v.WellGrouped :=
  forall_iff_of_cons Iff.rfl (fun _ _ => Iff.rfl) vs

theorem groupedParams_iff (ps : List Param) : groupedParams ps ↔ ∀ p ∈ ps, p.WellGrouped :=
  forall_iff_of_cons Iff.rfl (fun _ _ => Iff.rfl) ps

theorem groupedTypeArgs_iff (as : List TypeArg) : groupedTypeArgs as ↔ ∀ a ∈ as, a.WellGrouped :=
  forall_iff_of_cons Iff.rfl (fun _ _ => Iff.rfl) as

theorem groupedTypes_iff (ts : List ComplexType) : groupedTypes ts ↔ ∀ t ∈ ts, t.WellGrouped :=
  forall_iff_of_cons Iff.rfl (fun _ _ => Iff.rfl) ts

theorem groupedFields_iff (fs : List Field) : groupedFields fs ↔ ∀ f ∈ fs, f.WellGrouped :=
  forall_iff_of_cons Iff.rfl (fun _ _ => Iff.rfl) fs

theorem groupedOption_iff (e? : Option Expr) : groupedOption e? ↔ ∀ e ∈ e?, e.WellGrouped := by
  cases e? <;> simp [groupedOption]

theorem groupedOptionType_iff (t? : Option ComplexType) :
    groupedOptionType t? ↔ ∀ t ∈ t?, t.WellGrouped := by
  cases t? <;> simp [groupedOptionType]

theorem Expr.wellGrouped_iff (e : Expr) :
    e.WellGrouped ↔ e.kind.Grouped ∧ e.kind.GroupedInside := by
  cases e
  rfl

end HaxeMacro
