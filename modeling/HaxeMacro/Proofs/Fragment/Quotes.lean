import HaxeMacro.Proofs.Parser.Plain

/-! # Quotes

The constants of a fragment are all that stand in it: in its expressions, in their types, and in the
metadata of fields, variables and parameters. An expression that is read has no constants beyond the
reach of the visits, so that its quotes are normalized everywhere.
-/

namespace HaxeMacro

/-! ## All constants -/

mutual

/-- The constants in the expression, wherever they stand. -/
def Expr.constants : Expr → List Constant
  | ⟨kind, _⟩ => kind.constants

def ExprKind.constants : ExprKind → List Constant
  | .const x => [x]
  | .index a b | .binary _ a b | .forIn a b | .loop a b _ => a.constants ++ b.constants
  | .field e _ | .paren e | .unary _ _ e | .untyped e | .throw e => e.constants
  | .object fields => constantsOfObjectFields fields
  | .array items | .block items => constantsOfExprs items
  | .call callee args => callee.constants ++ constantsOfExprs args
  | .new path args => path.constants ++ constantsOfExprs args
  | .vars vs => constantsOfVars vs
  | .function _ func => func.constants
  | .brk | .cont => []
  | .cond test yes no => test.constants ++ yes.constants ++ constantsOfOption no
  | .ret value => constantsOfOption value
  | .cast e type => e.constants ++ constantsOfOptionType type
  | .ternary test yes no => test.constants ++ yes.constants ++ no.constants
  | .checkType e type => e.constants ++ type.constants
  | .annotated entry e => entry.constants ++ e.constants

def constantsOfExprs : List Expr → List Constant
  | [] => []
  | e :: es => e.constants ++ constantsOfExprs es

def constantsOfOption : Option Expr → List Constant
  | none => []
  | some e => e.constants

def ObjectField.constants : ObjectField → List Constant
  | ⟨_, value, _⟩ => value.constants

def constantsOfObjectFields : List ObjectField → List Constant
  | [] => []
  | field :: fields => field.constants ++ constantsOfObjectFields fields

def Var.constants : Var → List Constant
  | ⟨_, type, init, _, _, annotations⟩ =>
    constantsOfOptionType type ++ constantsOfOption init ++ constantsOfMetadata annotations

def constantsOfVars : List Var → List Constant
  | [] => []
  | v :: vs => v.constants ++ constantsOfVars vs

def Param.constants : Param → List Constant
  | ⟨_, _, type, default, annotations⟩ =>
    constantsOfOptionType type ++ constantsOfOption default ++ constantsOfMetadata annotations

def constantsOfParams : List Param → List Constant
  | [] => []
  | p :: ps => p.constants ++ constantsOfParams ps

def FunctionDef.constants : FunctionDef → List Constant
  | ⟨params, ret, body, typeParams⟩ =>
    constantsOfParams params ++ constantsOfOptionType ret ++ constantsOfOption body ++
      constantsOfTypeParams typeParams

def TypePath.constants : TypePath → List Constant
  | ⟨_, _, args, _⟩ => constantsOfTypeArgs args

def TypeArg.constants : TypeArg → List Constant
  | .type t => t.constants
  | .expr e => e.constants

def constantsOfTypeArgs : List TypeArg → List Constant
  | [] => []
  | a :: as => a.constants ++ constantsOfTypeArgs as

def ComplexType.constants : ComplexType → List Constant
  | .path p => p.constants
  | .function args ret => constantsOfTypes args ++ ret.constants
  | .anonymous fields => constantsOfFields fields
  | .paren t | .optional t | .named _ t => t.constants

def constantsOfTypes : List ComplexType → List Constant
  | [] => []
  | t :: ts => t.constants ++ constantsOfTypes ts

def constantsOfOptionType : Option ComplexType → List Constant
  | none => []
  | some t => t.constants

def TypeParamDecl.constants : TypeParamDecl → List Constant
  | ⟨_, constraints, params, annotations⟩ =>
    constantsOfTypes constraints ++ constantsOfTypeParams params ++ constantsOfMetadata annotations

def constantsOfTypeParams : List TypeParamDecl → List Constant
  | [] => []
  | t :: ts => t.constants ++ constantsOfTypeParams ts

def Metadata.constants : Metadata → List Constant
  | ⟨_, args, _⟩ => constantsOfExprs args

def constantsOfMetadata : List Metadata → List Constant
  | [] => []
  | m :: ms => m.constants ++ constantsOfMetadata ms

def FieldKind.constants : FieldKind → List Constant
  | .var type init | .property _ _ type init => constantsOfOptionType type ++ constantsOfOption init
  | .method func => func.constants

def Field.constants : Field → List Constant
  | ⟨_, _, _, kind, _, annotations⟩ => kind.constants ++ constantsOfMetadata annotations

def constantsOfFields : List Field → List Constant
  | [] => []
  | field :: fields => field.constants ++ constantsOfFields fields

end

/-! ## Revised constants -/

theorem append_eq_map {α β : Type} {f : α → β} {xs ys : List α} {xs' ys' : List β}
    (hx : xs' = xs.map f) (hy : ys' = ys.map f) : xs' ++ ys' = (xs ++ ys).map f := by
  rw [hx, hy, List.map_append]

section
variable (c : Constant → Constant) (f : Position → Position)

mutual

/-- The constants of a revised expression are those of the expression, each revised. -/
theorem Expr.constants_revise : (e : Expr) → (e.revise c f).constants = e.constants.map c
  | ⟨kind, _⟩ => ExprKind.constants_revise kind

theorem ExprKind.constants_revise :
    (kind : ExprKind) → (kind.revise c f).constants = kind.constants.map c
  | .const _ | .brk | .cont => rfl
  | .index a b | .binary _ a b | .forIn a b | .loop a b _ =>
    append_eq_map a.constants_revise b.constants_revise
  | .field e _ | .paren e | .unary _ _ e | .untyped e | .throw e => e.constants_revise
  | .object fields => constantsOfObjectFields_revise fields
  | .array items | .block items => constantsOfExprs_revise items
  | .call callee args => append_eq_map callee.constants_revise (constantsOfExprs_revise args)
  | .new path args => append_eq_map path.constants_revise (constantsOfExprs_revise args)
  | .vars vs => constantsOfVars_revise vs
  | .function _ func => func.constants_revise
  | .cond test yes no =>
    append_eq_map (append_eq_map test.constants_revise yes.constants_revise)
      (constantsOfOption_revise no)
  | .ret value => constantsOfOption_revise value
  | .cast e type => append_eq_map e.constants_revise (constantsOfOptionType_revise type)
  | .ternary test yes no =>
    append_eq_map (append_eq_map test.constants_revise yes.constants_revise) no.constants_revise
  | .checkType e type => append_eq_map e.constants_revise type.constants_revise
  | .annotated entry e => append_eq_map entry.constants_revise e.constants_revise

theorem constantsOfExprs_revise :
    (es : List Expr) → constantsOfExprs (reviseExprs c f es) = (constantsOfExprs es).map c
  | [] => rfl
  | e :: es => append_eq_map e.constants_revise (constantsOfExprs_revise es)

theorem constantsOfOption_revise :
    (e? : Option Expr) → constantsOfOption (reviseOption c f e?) = (constantsOfOption e?).map c
  | none => rfl
  | some e => e.constants_revise

theorem ObjectField.constants_revise :
    (field : ObjectField) → (field.revise c f).constants = field.constants.map c
  | ⟨_, value, _⟩ => value.constants_revise

theorem constantsOfObjectFields_revise : (fields : List ObjectField) →
    constantsOfObjectFields (reviseObjectFields c f fields) =
      (constantsOfObjectFields fields).map c
  | [] => rfl
  | field :: fields => append_eq_map field.constants_revise (constantsOfObjectFields_revise fields)

theorem Var.constants_revise : (v : Var) → (v.revise c f).constants = v.constants.map c
  | ⟨_, type, init, _, _, annotations⟩ =>
    append_eq_map
      (append_eq_map (constantsOfOptionType_revise type) (constantsOfOption_revise init))
      (constantsOfMetadata_revise annotations)

theorem constantsOfVars_revise :
    (vs : List Var) → constantsOfVars (reviseVars c f vs) = (constantsOfVars vs).map c
  | [] => rfl
  | v :: vs => append_eq_map v.constants_revise (constantsOfVars_revise vs)

theorem Param.constants_revise : (p : Param) → (p.revise c f).constants = p.constants.map c
  | ⟨_, _, type, default, annotations⟩ =>
    append_eq_map
      (append_eq_map (constantsOfOptionType_revise type) (constantsOfOption_revise default))
      (constantsOfMetadata_revise annotations)

theorem constantsOfParams_revise :
    (ps : List Param) → constantsOfParams (reviseParams c f ps) = (constantsOfParams ps).map c
  | [] => rfl
  | p :: ps => append_eq_map p.constants_revise (constantsOfParams_revise ps)

theorem FunctionDef.constants_revise :
    (func : FunctionDef) → (func.revise c f).constants = func.constants.map c
  | ⟨params, ret, body, typeParams⟩ =>
    append_eq_map
      (append_eq_map
        (append_eq_map (constantsOfParams_revise params) (constantsOfOptionType_revise ret))
        (constantsOfOption_revise body))
      (constantsOfTypeParams_revise typeParams)

theorem TypePath.constants_revise :
    (path : TypePath) → (path.revise c f).constants = path.constants.map c
  | ⟨_, _, args, _⟩ => constantsOfTypeArgs_revise args

theorem TypeArg.constants_revise : (a : TypeArg) → (a.revise c f).constants = a.constants.map c
  | .type t => t.constants_revise
  | .expr e => e.constants_revise

theorem constantsOfTypeArgs_revise : (as : List TypeArg) →
    constantsOfTypeArgs (reviseTypeArgs c f as) = (constantsOfTypeArgs as).map c
  | [] => rfl
  | a :: as => append_eq_map a.constants_revise (constantsOfTypeArgs_revise as)

theorem ComplexType.constants_revise :
    (t : ComplexType) → (t.revise c f).constants = t.constants.map c
  | .path p => p.constants_revise
  | .function args ret => append_eq_map (constantsOfTypes_revise args) ret.constants_revise
  | .anonymous fields => constantsOfFields_revise fields
  | .paren t | .optional t | .named _ t => t.constants_revise

theorem constantsOfTypes_revise :
    (ts : List ComplexType) → constantsOfTypes (reviseTypes c f ts) = (constantsOfTypes ts).map c
  | [] => rfl
  | t :: ts => append_eq_map t.constants_revise (constantsOfTypes_revise ts)

theorem constantsOfOptionType_revise : (t? : Option ComplexType) →
    constantsOfOptionType (reviseOptionType c f t?) = (constantsOfOptionType t?).map c
  | none => rfl
  | some t => t.constants_revise

theorem TypeParamDecl.constants_revise :
    (t : TypeParamDecl) → (t.revise c f).constants = t.constants.map c
  | ⟨_, constraints, params, annotations⟩ =>
    append_eq_map
      (append_eq_map (constantsOfTypes_revise constraints) (constantsOfTypeParams_revise params))
      (constantsOfMetadata_revise annotations)

theorem constantsOfTypeParams_revise : (ts : List TypeParamDecl) →
    constantsOfTypeParams (reviseTypeParams c f ts) = (constantsOfTypeParams ts).map c
  | [] => rfl
  | t :: ts => append_eq_map t.constants_revise (constantsOfTypeParams_revise ts)

theorem Metadata.constants_revise :
    (m : Metadata) → (m.revise c f).constants = m.constants.map c
  | ⟨_, args, _⟩ => constantsOfExprs_revise args

theorem constantsOfMetadata_revise : (ms : List Metadata) →
    constantsOfMetadata (reviseMetadata c f ms) = (constantsOfMetadata ms).map c
  | [] => rfl
  | m :: ms => append_eq_map m.constants_revise (constantsOfMetadata_revise ms)

theorem FieldKind.constants_revise :
    (kind : FieldKind) → (kind.revise c f).constants = kind.constants.map c
  | .var type init | .property _ _ type init =>
    append_eq_map (constantsOfOptionType_revise type) (constantsOfOption_revise init)
  | .method func => func.constants_revise

theorem Field.constants_revise :
    (field : Field) → (field.revise c f).constants = field.constants.map c
  | ⟨_, _, _, kind, _, annotations⟩ =>
    append_eq_map kind.constants_revise (constantsOfMetadata_revise annotations)

theorem constantsOfFields_revise : (fields : List Field) →
    constantsOfFields (reviseFields c f fields) = (constantsOfFields fields).map c
  | [] => rfl
  | field :: fields => append_eq_map field.constants_revise (constantsOfFields_revise fields)

end

end

/-! ## Replaced constants -/

/-- Two replacements of constants, one after the other, are one replacement. -/
theorem Expr.mapConstants_mapConstants (c d : Constant → Constant) (e : Expr) :
    (e.mapConstants c).mapConstants d = e.mapConstants (d ∘ c) := by
  induction e using Expr.induction_children with
  | h e ih =>
    obtain ⟨kind, pos⟩ := e
    have hchildren : (kind.mapChildren (·.mapConstants c)).mapChildren (·.mapConstants d) =
        kind.mapChildren (·.mapConstants (d ∘ c)) :=
      (ExprKind.mapChildren_mapChildren _ _ kind).trans (ExprKind.mapChildren_congr ih)
    have htwice (k : ExprKind) : (k.mapConstant c).mapConstant d = k.mapConstant (d ∘ c) := by
      cases k <;> rfl
    rw [Expr.mapConstants_eq, Expr.mapConstants_eq, ExprKind.mapChildren_mapConstant, hchildren,
      htwice, ← Expr.mapConstants_eq]

/-- The visits come by every constant of a plain expression. -/
theorem Expr.Plain.mapConstants_eq_revise (c : Constant → Constant) {e : Expr} (h : e.Plain) :
    e.mapConstants c = e.revise c id := by
  induction h with
  | @mk kind pos htypes _ ih =>
    rw [Expr.mapConstants_eq, ExprKind.mapChildren_congr ih, ← htypes.revise_eq]
    rfl

/-! ## Double quotes -/

theorem Expr.normalizeQuotes_eq (e : Expr) :
    e.normalizeQuotes = e.mapConstants Constant.doubleQuoted := rfl

theorem Constant.doubleQuoted_doubleQuoted (c : Constant) :
    c.doubleQuoted.doubleQuoted = c.doubleQuoted := by
  cases c <;> rfl

theorem Constant.doubleQuoted_ne_single (c : Constant) (text : String) :
    c.doubleQuoted ≠ .string text .single := by
  intro h
  cases c <;> cases h

/-- Once the quotes of an expression that is read are normalized, no string in single quotes stands
in it, not even in a type or in the metadata of a variable. Nothing else about it has changed, and
there is nothing left to normalize. -/
theorem Expr.normalizeQuotes_of_parse {text : String} {pos : Position} {e : Expr}
    (h : Expr.parse text pos = .ok e) :
    (∀ s, Constant.string s .single ∉ e.normalizeQuotes.constants) ∧
    e.normalizeQuotes = e.revise Constant.doubleQuoted id ∧
    e.normalizeQuotes.normalizeQuotes = e.normalizeQuotes := by
  have heq : e.normalizeQuotes = e.revise Constant.doubleQuoted id :=
    (Expr.plain_of_parse h).mapConstants_eq_revise _
  refine ⟨fun s hs => ?_, heq, ?_⟩
  · rw [heq, Expr.constants_revise] at hs
    obtain ⟨c, -, hc⟩ := List.mem_map.mp hs
    exact c.doubleQuoted_ne_single s hc
  · rw [e.normalizeQuotes_eq, Expr.normalizeQuotes_eq, Expr.mapConstants_mapConstants]
    congr 1
    funext c
    exact c.doubleQuoted_doubleQuoted

theorem Expr.normalizeQuotes_everywhere : ∃ e,
    Expr.parse "@m('a') function(x = 'b') var y = 'c'" ⟨0, 0, 0⟩ = .ok e ∧
    Constant.string "a" .single ∈ e.constants ∧
    (∀ s, Constant.string s .single ∉ e.normalizeQuotes.constants) ∧
    e.normalizeQuotes = e.revise Constant.doubleQuoted id ∧
    e.normalizeQuotes.normalizeQuotes = e.normalizeQuotes := by
  have hread : (Expr.parse "@m('a') function(x = 'b') var y = 'c'" ⟨0, 0, 0⟩).toOption.any
      (fun e => e.constants.contains (.string "a" .single)) = true := by
    decide +kernel
  cases h : Expr.parse "@m('a') function(x = 'b') var y = 'c'" ⟨0, 0, 0⟩ with
  | ok e =>
    rw [h] at hread
    exact ⟨e, rfl, List.contains_iff_mem.mp hread, Expr.normalizeQuotes_of_parse h⟩
  | error _ =>
    rw [h] at hread
    cases hread

end HaxeMacro
