import HaxeMacro.Filter.Basic
import HaxeMacro.Fragment.Traversal

/-! # Captured locals

A local that a function literal assigns is kept in an array of one item: `var x = e` becomes
`var x = [e]`, and every use of `x` becomes `x[0]`.
-/

namespace HaxeMacro

namespace Filter

/-- The names that an expression declares outside the function literals in it. -/
def declaredNames (e : Expr) : List String :=
  e.nodesOutsideFunctions.flatMap fun
    | ⟨.vars vs, _⟩ => vs.map (·.name)
    | _ => []

def assignedName? : Expr → Option String
  | ⟨.binary .assign left _, _⟩ | ⟨.binary (.assignOp _) left _, _⟩ => left.ident?
  | ⟨.unary .increment _ operand, _⟩ | ⟨.unary .decrement _ operand, _⟩ => operand.ident?
  | _ => none

/-- The identifiers that function literals in an expression assign. -/
def namesAssignedInFunctions (e : Expr) : List String :=
  (e.nodes.filter (·.isFunction)).flatMap fun f => f.nodes.filterMap assignedName?

/-- The names of the locals that are boxed, each of them once. -/
def boxedNames (body : Expr) : List String :=
  let assigned := namesAssignedInFunctions body
  ((declaredNames body).filter (· ∈ assigned)).eraseDups

def boxVar (names : List String) (pos : Position) (v : Var) : Var :=
  if v.name ∈ names then
    { v with type := none, init := some ⟨.array [v.init.getD (.null pos)], pos⟩ }
  else v

/-- One expression with its boxed locals, when its parts are done. -/
def boxNode (names : List String) : Expr → Expr
  | ⟨.const (.ident name), pos⟩ =>
    if name ∈ names then ⟨.index (.ident name pos) (.int "0" pos), pos⟩ else .ident name pos
  | ⟨.vars vs, pos⟩ => ⟨.vars (vs.map (boxVar names pos)), pos⟩
  | e => e

def boxCaptured (body : Expr) : Expr × Nat :=
  match boxedNames body with
  | [] => (body, 0)
  | names => (body.mapUp (boxNode names), names.length)

def captureBox (c : ClassDef) : Filtered := .done (c.countBodies boxCaptured)

end Filter

end HaxeMacro
