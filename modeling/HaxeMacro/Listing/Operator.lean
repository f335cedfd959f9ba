import HaxeMacro.Fragment.Basic
import HaxeMacro.Value.Json

/-! # Listing operators and names

Listings show what the library works with as JSON trees, for tools that inspect it. A part that has
several forms is listed by the name of its form.
-/

namespace HaxeMacro

namespace Listing

open JsonTree (text texts)

def position (p : Position) : JsonTree :=
  .list .number [p.file.toNat, p.min.toNat, p.max.toNat]

def constant : Constant → JsonTree
  | .int digits => texts ["Int", digits]
  | .float digits => texts ["Float", digits]
  | .string s .double => texts ["String", s, "Double"]
  | .string s .single => texts ["String", s, "Single"]
  | .ident name => texts ["Ident", name]
  | .regexp pattern flags => texts ["Regexp", pattern, flags]

def binaryOp : BinaryOp → JsonTree
  | .add => text "Add"
  | .mult => text "Mult"
  | .div => text "Div"
  | .sub => text "Sub"
  | .assign => text "Assign"
  | .eq => text "Eq"
  | .notEq => text "NotEq"
  | .gt => text "Gt"
  | .gte => text "Gte"
  | .lt => text "Lt"
  | .lte => text "Lte"
  | .and => text "And"
  | .or => text "Or"
  | .xor => text "Xor"
  | .boolAnd => text "BoolAnd"
  | .boolOr => text "BoolOr"
  | .shl => text "Shl"
  | .shr => text "Shr"
  | .ushr => text "UShr"
  | .mod => text "Mod"
  | .assignOp op => .array [text "AssignOp", binaryOp op]
  | .interval => text "Interval"
  | .arrow => text "Arrow"
  | .isIn => text "In"
  | .nullCoal => text "NullCoal"

def unaryOp : UnaryOp → JsonTree
  | .increment => text "Increment"
  | .decrement => text "Decrement"
  | .not => text "Not"
  | .neg => text "Neg"
  | .negBits => text "NegBits"
  | .spread => text "Spread"

def access : Access → JsonTree
  | .pub => text "Public"
  | .priv => text "Private"
  | .static => text "Static"
  | .override => text "Override"
  | .dynamic => text "Dynamic"
  | .inlined => text "Inline"
  | .macroCode => text "Macro"
  | .final => text "Final"
  | .external => text "Extern"

def functionKind : FunctionKind → JsonTree
  | .anonymous => text "Anonymous"
  | .arrow => text "Arrow"
  | .named name => texts ["Named", name]

/-- The name of a form of expressions. -/
def kindName : ExprKind → String
  | .const _ => "Const"
  | .index .. => "Array"
  | .binary .. => "Binop"
  | .field .. => "Field"
  | .paren _ => "Parenthesis"
  | .object _ => "ObjectDecl"
  | .array _ => "ArrayDecl"
  | .call .. => "Call"
  | .new .. => "New"
  | .unary .. => "Unop"
  | .vars _ => "Vars"
  | .function .. => "Function"
  | .block _ => "Block"
  | .forIn .. => "For"
  | .cond .. => "If"
  | .loop .. => "While"
  | .ret _ => "Return"
  | .brk => "Break"
  | .cont => "Continue"
  | .untyped _ => "Untyped"
  | .throw _ => "Throw"
  | .cast .. => "Cast"
  | .ternary .. => "Ternary"
  | .checkType .. => "CheckType"
  | .annotated .. => "Meta"

end Listing

end HaxeMacro
