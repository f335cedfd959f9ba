import HaxeMacro.Proofs.Parser.Literals
import HaxeMacro.Proofs.Parser.Precedence
import HaxeMacro.Proofs.Printing.Edges
import HaxeMacro.Proofs.Printing.Types

/-! # Expressions as they are read

The forms that the grammar gives, with all that it demands of their parts. Parts stand without
parentheses only where they are told apart from what stands around them.
-/

namespace HaxeMacro

open Token Grammar

/-! ## Words -/

structure Token.IsIdentifier (name : String) : Prop where
  isName : IsName name
  free : reserved.contains name = false

/-- The literals and identifiers that are read, and numbers with minus signs before them. -/
inductive Constant.Written : Constant → Prop
  | number {c : Constant} {s rest : List Char} (h : number s = .done c rest) : Written c
  | negatedInt {text : String} (h : Written (.int text)) : Written (.int ("-" ++ text))
  | negatedFloat {text : String} (h : Written (.float text)) : Written (.float ("-" ++ text))
  | string (text : String) (quotes : Quotes) : Written (.string text quotes)
  | regexp {c : Constant} {s rest : List Char} (h : regexpLiteral s = .done c rest) : Written c
  | ident {name : String} (h : IsIdentifier name) : Written (.ident name)

def Constant.isSigned : Constant → Bool
  | .int text | .float text => text.toList.head? == some '-'
  | _ => false

def FunctionKind.IsWritten : FunctionKind → Prop
  | .anonymous => True
  | .named name => IsIdentifier name
  | .arrow => False

/-- The name of a metadata entry is a word, perhaps with a colon before it. -/
def Metadata.IsNamed (entry : Metadata) : Prop :=
  ∃ word, IsName word ∧ (entry.name = word ∨ entry.name = ":" ++ word)

structure Var.IsDeclared (isFinal isStatic : Bool) (v : Var) : Prop where
  name : IsIdentifier v.name
  type : ∀ t ∈ v.type, t.Written
  isFinal : v.isFinal = isFinal
  isStatic : v.isStatic = isStatic
  annotations : v.annotations = []

structure Param.IsDeclared (p : Param) : Prop where
  name : IsIdentifier p.name
  type : ∀ t ∈ p.type, t.Written
  annotations : p.annotations = []

/-! ## Forms -/

namespace ExprKind

/-- The forms that a field, a call, an index or a trailing operator may follow: no part of them
would take it. -/
structure IsClosed (kind : ExprKind) : Prop where
  noLast : kind.lastPart = none
  unsigned : ∀ c, kind = .const c → c.isSigned = false

theorem IsClosed.isOperand {kind : ExprKind} (h : kind.IsClosed) : kind.IsOperand := by
  have hlast := h.noLast
  cases kind <;> trivial

/-- The forms that are read from texts. -/
inductive Written : ExprKind → Prop
  | const {c : Constant} (h : c.Written) : Written (.const c)
  | paren {e : Expr} (h : e.kind.Written) : Written (.paren e)
  | checkType {e : Expr} {t : ComplexType} (h : e.kind.Written) (ht : t.Written) :
    Written (.checkType e t)
  | object {fields : List ObjectField} (hne : fields ≠ [])
    (hnames : ∀ f ∈ fields, f.quoted = false → IsName f.name)
    (h : ∀ f ∈ fields, f.value.kind.Written) : Written (.object fields)
  | array {items : List Expr} (h : ∀ e ∈ items, e.kind.Written) : Written (.array items)
  | block {items : List Expr} (h : ∀ e ∈ items, e.kind.Written) : Written (.block items)
  | new {path : TypePath} {args : List Expr} (hpath : path.Written)
    (h : ∀ e ∈ args, e.kind.Written) : Written (.new path args)
  | vars {vs : List Var} {isFinal isStatic : Bool} (hne : vs ≠ [])
    (hshape : ∀ v ∈ vs, v.IsDeclared isFinal isStatic)
    (h : ∀ v ∈ vs, ∀ e ∈ v.init, e.kind.Written) : Written (.vars vs)
  | function {kind : FunctionKind} {params : List Param} {ret : Option ComplexType} {body : Expr}
    (hkind : kind.IsWritten) (hparams : ∀ p ∈ params, p.IsDeclared)
    (h : ∀ p ∈ params, ∀ e ∈ p.default, e.kind.Written) (hret : ∀ t ∈ ret, t.Written)
    (hbody : body.kind.Written) : Written (.function kind ⟨params, ret, some body, []⟩)
  | forIn {name : String} {range body : Expr} (place pos : Position) (hname : IsIdentifier name)
    (hrange : range.kind.Written) (hbody : body.kind.Written) :
    Written (.forIn ⟨.binary .isIn (.ident name place) range, pos⟩ body)
  | cond {test yes : Expr} (htest : test.kind.Written) (hyes : yes.kind.Written) :
    Written (.cond test yes none)
  | condElse {test yes no : Expr} (htest : test.kind.Written) (hyes : yes.kind.Written)
    (hown : yes.kind.endsWith isElseless = false) (hno : no.kind.Written) :
    Written (.cond test yes (some no))
  | loop {test body : Expr} (htest : test.kind.Written) (hbody : body.kind.Written)
    (testFirst : Bool) : Written (.loop test body testFirst)
  | ret {value : Option Expr} (h : ∀ e ∈ value, e.kind.Written) : Written (.ret value)
  | brk : Written .brk
  | cont : Written .cont
  | untyped {e : Expr} (h : e.kind.Written) : Written (.untyped e)
  | throw {e : Expr} (h : e.kind.Written) : Written (.throw e)
  | castTo {e : Expr} {t : ComplexType} (h : e.kind.Written) (ht : t.Written) :
    Written (.cast e (some t))
  | cast {e : Expr} (h : e.kind.Written) (hop : e.kind.IsOperand) : Written (.cast e none)
  | annotated {entry : Metadata} {e : Expr} (hname : entry.IsNamed)
    (hargs : ∀ arg ∈ entry.args, arg.kind.Written) (h : e.kind.Written) :
    Written (.annotated entry e)
  | field {e : Expr} {name : String} (h : e.kind.Written) (hclosed : e.kind.IsClosed)
    (hname : IsName name) : Written (.field e name)
  | call {e : Expr} {args : List Expr} (h : e.kind.Written) (hclosed : e.kind.IsClosed)
    (hargs : ∀ arg ∈ args, arg.kind.Written) : Written (.call e args)
  | index {e i : Expr} (h : e.kind.Written) (hclosed : e.kind.IsClosed) (hi : i.kind.Written) :
    Written (.index e i)
  | trailing {op : UnaryOp} {e : Expr} (h : e.kind.Written) (hclosed : e.kind.IsClosed)
    (hop : op = .increment ∨ op = .decrement) : Written (.unary op true e)
  | leading {op : UnaryOp} {e : Expr} (h : e.kind.Written) (hop : e.kind.IsOperand)
    (happly : applyLeading op e = .unary op false e) : Written (.unary op false e)
  | binary {op : BinaryOp} {left right : Expr} (hop : ∃ word, (word, op) ∈ binarySymbols)
    (hleft : left.kind.Written) (hright : right.kind.Written) (hclosed : left.kind.IsLeftOf op)
    (hends : left.kind.endsWith isGreedy = false) (hlevel : right.kind.IsRightOf op) :
    Written (.binary op left right)
  | ternary {test yes no : Expr} (htest : test.kind.Written) (hyes : yes.kind.Written)
    (hno : no.kind.Written) (hlevel : test.kind.IsTest)
    (hends : test.kind.endsWith isGreedy = false) (halternative : no.kind.IsAlternative) :
    Written (.ternary test yes no)

end ExprKind

end HaxeMacro
