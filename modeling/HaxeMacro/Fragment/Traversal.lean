import HaxeMacro.Fragment.Basic

/-! # Visiting and replacing expressions

The sub-expressions of an expression are those it is evaluated from, together with the arguments of
its metadata. Expressions inside types, and the metadata of variables and parameters, are none.

`Expr.nodes` lists them from the top, `Expr.transform` replaces them from the bottom.
-/

namespace HaxeMacro

/-! ## Direct sub-expressions -/

/-- The default values and the body of a function. -/
def FunctionDef.children (f : FunctionDef) : List Expr :=
  f.params.filterMap (·.default) ++ f.body.toList

/-- The direct sub-expressions, in the order of the visits. -/
def ExprKind.children : ExprKind → List Expr
  | .const _ | .brk | .cont => []
  | .index a b | .binary _ a b | .forIn a b | .loop a b _ => [a, b]
  | .field e _ | .paren e | .unary _ _ e | .untyped e | .throw e | .cast e _ | .checkType e _ => [e]
  | .object fields => fields.map (·.value)
  | .array items | .block items => items
  | .call callee args => callee :: args
  | .new _ args => args
  | .vars vs => vs.filterMap (·.init)
  | .function _ f => f.children
  | .cond test yes no => test :: yes :: no.toList
  | .ret value => value.toList
  | .ternary test yes no => [test, yes, no]
  | .annotated entry e => entry.args ++ [e]

def Expr.children (e : Expr) : List Expr := e.kind.children

/-! ## From the top -/

section
variable (enter : Expr → Bool)

mutual

/-- The expression and, if `enter` allows it, what its direct sub-expressions give. -/
def Expr.nodesWhere : Expr → List Expr
  | ⟨kind, pos⟩ => ⟨kind, pos⟩ :: (if enter ⟨kind, pos⟩ then kind.nodesWhere else [])

def ExprKind.nodesWhere : ExprKind → List Expr
  | .const _ | .brk | .cont => []
  | .index a b | .binary _ a b | .forIn a b | .loop a b _ => a.nodesWhere ++ b.nodesWhere
  | .field e _ | .paren e | .unary _ _ e | .untyped e | .throw e | .cast e _ | .checkType e _ =>
    e.nodesWhere
  | .object fields => nodesOfFields fields
  | .array items | .block items => nodesOfExprs items
  | .call callee args => callee.nodesWhere ++ nodesOfExprs args
  | .new _ args => nodesOfExprs args
  | .vars vs => nodesOfVars vs
  | .function _ f => f.nodesWhere
  | .cond test yes no => test.nodesWhere ++ (yes.nodesWhere ++ nodesOfOption no)
  | .ret value => nodesOfOption value
  | .ternary test yes no => test.nodesWhere ++ (yes.nodesWhere ++ no.nodesWhere)
  | .annotated entry e => entry.nodesWhere ++ e.nodesWhere

def nodesOfExprs : List Expr → List Expr
  | [] => []
  | e :: es => e.nodesWhere ++ nodesOfExprs es

def nodesOfOption : Option Expr → List Expr
  | none => []
  | some e => e.nodesWhere

def nodesOfFields : List ObjectField → List Expr
  | [] => []
  | ⟨_, value, _⟩ :: fields => value.nodesWhere ++ nodesOfFields fields

def nodesOfVars : List Var → List Expr
  | [] => []
  | ⟨_, _, init, _, _, _⟩ :: vars => nodesOfOption init ++ nodesOfVars vars

def nodesOfParams : List Param → List Expr
  | [] => []
  | ⟨_, _, _, default, _⟩ :: params => nodesOfOption default ++ nodesOfParams params

def FunctionDef.nodesWhere : FunctionDef → List Expr
  | ⟨params, _, body, _⟩ => nodesOfParams params ++ nodesOfOption body

def Metadata.nodesWhere : Metadata → List Expr
  | ⟨_, args, _⟩ => nodesOfExprs args

end

end

/-- The expression and all expressions inside it, each before its own parts. -/
def Expr.nodes (e : Expr) : List Expr := e.nodesWhere fun _ => true

def Expr.isFunction : Expr → Bool
  | ⟨.function .., _⟩ => true
  | _ => false

/-- The expressions inside `e` that belong to no function literal in it, and those literals. -/
def Expr.nodesOutsideFunctions (e : Expr) : List Expr := e.nodesWhere fun node => !node.isFunction

/-! ## From the bottom -/

section
variable {m : Type → Type} [Monad m] (replace : Expr → Option (m Expr)) (visit : Expr → m Expr)

mutual

/-- What `replace` answers for the expression stands as it is; any other expression has its parts
transformed first and is visited then. -/
def Expr.transform : Expr → m Expr
  | ⟨kind, pos⟩ =>
    match replace ⟨kind, pos⟩ with
    | some result => result
    | none => do visit ⟨← kind.transform, pos⟩

def ExprKind.transform : ExprKind → m ExprKind
  | .const c => pure (.const c)
  | .index a b => do return .index (← a.transform) (← b.transform)
  | .binary op a b => do return .binary op (← a.transform) (← b.transform)
  | .field e name => do return .field (← e.transform) name
  | .paren e => do return .paren (← e.transform)
  | .object fields => do return .object (← transformFields fields)
  | .array items => do return .array (← transformExprs items)
  | .call callee args => do return .call (← callee.transform) (← transformExprs args)
  | .new path args => do return .new path (← transformExprs args)
  | .unary op after e => do return .unary op after (← e.transform)
  | .vars vs => do return .vars (← transformVars vs)
  | .function kind f => do return .function kind (← f.transform)
  | .block items => do return .block (← transformExprs items)
  | .forIn head body => do return .forIn (← head.transform) (← body.transform)
  | .cond test yes no => do
    return .cond (← test.transform) (← yes.transform) (← transformOption no)
  | .loop test body first => do return .loop (← test.transform) (← body.transform) first
  | .ret value => do return .ret (← transformOption value)
  | .brk => pure .brk
  | .cont => pure .cont
  | .untyped e => do return .untyped (← e.transform)
  | .throw e => do return .throw (← e.transform)
  | .cast e type => do return .cast (← e.transform) type
  | .ternary test yes no => do
    return .ternary (← test.transform) (← yes.transform) (← no.transform)
  | .checkType e type => do return .checkType (← e.transform) type
  | .annotated entry e => do return .annotated (← entry.transform) (← e.transform)

def transformExprs : List Expr → m (List Expr)
  | [] => pure []
  | e :: es => do return (← e.transform) :: (← transformExprs es)

def transformOption : Option Expr → m (Option Expr)
  | none => pure none
  | some e => do return some (← e.transform)

def transformFields : List ObjectField → m (List ObjectField)
  | [] => pure []
  | ⟨name, value, quoted⟩ :: fields => do
    return ⟨name, ← value.transform, quoted⟩ :: (← transformFields fields)

def transformVars : List Var → m (List Var)
  | [] => pure []
  | ⟨name, type, init, isFinal, isStatic, annotations⟩ :: vars => do
    return ⟨name, type, ← transformOption init, isFinal, isStatic, annotations⟩
      :: (← transformVars vars)

def transformParams : List Param → m (List Param)
  | [] => pure []
  | ⟨name, optional, type, default, annotations⟩ :: params => do
    return ⟨name, optional, type, ← transformOption default, annotations⟩
      :: (← transformParams params)

def FunctionDef.transform : FunctionDef → m FunctionDef
  | ⟨params, ret, body, typeParams⟩ => do
    return ⟨← transformParams params, ret, ← transformOption body, typeParams⟩

def Metadata.transform : Metadata → m Metadata
  | ⟨name, args, pos⟩ => do return ⟨name, ← transformExprs args, pos⟩

end

end

def Expr.mapUpM {m : Type → Type} [Monad m] (visit : Expr → m Expr) (e : Expr) : m Expr :=
  e.transform (fun _ => none) visit

def Expr.mapUp (f : Expr → Expr) (e : Expr) : Expr :=
  Id.run (e.mapUpM fun node => pure (f node))

def Expr.mapUpCounting (f : Expr → Option Expr) (e : Expr) : Expr × Nat :=
  (e.mapUpM fun node => do
    match f node with
    | some new => modifyGet fun n => (new, n + 1)
    | none => pure node : StateM Nat Expr).run 0

/-- Replaces the outermost expressions for which `replace` has an answer. -/
def Expr.mapOutermost {m : Type → Type} [Monad m] (replace : Expr → Option (m Expr))
    (e : Expr) : m Expr :=
  e.transform replace pure

/-- The expression and all expressions inside it, each after its own parts. -/
def Expr.nodesUp (e : Expr) : List Expr :=
  ((e.mapUpM fun node => do
    modify (node :: ·)
    pure node : StateM (List Expr) Expr).run []).2.reverse

/-! ## Simple replacements -/

def Expr.mapConstants (f : Constant → Constant) (e : Expr) : Expr :=
  e.mapUp fun
    | ⟨.const c, pos⟩ => ⟨.const (f c), pos⟩
    | node => node

def Expr.renameIdents (f : String → String) (e : Expr) : Expr :=
  e.mapConstants fun
    | .ident name => .ident (f name)
    | c => c

/-- Puts every string literal between double quotes: single quotes mark interpolated strings, and a
fragment that is handed to a macro carries the text alone. -/
def Expr.normalizeQuotes (e : Expr) : Expr :=
  e.mapConstants fun
    | .string text _ => .string text .double
    | c => c

/-- Gives every expression without a position the position `pos`. -/
def Expr.fillPositions (pos : Position) (e : Expr) : Expr :=
  e.mapUp fun node => if node.pos.isNull then { node with pos } else node

end HaxeMacro
