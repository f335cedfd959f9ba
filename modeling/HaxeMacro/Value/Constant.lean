import HaxeMacro.Decimal.Read
import HaxeMacro.Value.Operators

/-! # Constant expressions

The expressions that stand for a value without being run: literals, arrays and objects of them, and
operators on them.
-/

namespace HaxeMacro

namespace Constant

def notConstant (pos : Position) : Fault :=
  .error (.argumentType "Argument should be a constant" pos)

/-- The number that a literal writes: a whole one if it fits in 64 bits. -/
def intValue (text : String) : Option Value :=
  match Decimal.readInt64 text with
  | some i => some (.int i)
  | none => (Decimal.readFloat text).map .float

def identValue : String → Option Value
  | "true" => some (.bool true)
  | "false" => some (.bool false)
  | "null" => some .null
  | _ => none

def value : Constant → Option Value
  | int text => intValue text
  | float text => (Decimal.readFloat text).map .float
  | string text _ => some (.string text)
  | ident name => identValue name
  | regexp .. => none

end Constant

def UnaryOp.applyToConstant (op : UnaryOp) (v : Value) (pos : Position) : Except Fault Value :=
  match op, v with
  | .neg, .int i => (Value.negate i).map .int
  | .neg, .float x => .ok (.float (-x))
  | .not, .bool b => .ok (.bool !b)
  | .negBits, .int i => .ok (.int (~~~i))
  | _, _ => .error (Constant.notConstant pos)

mutual

/-- The value of a constant expression. -/
def Expr.constant : Expr → Except Fault Value
  | ⟨kind, pos⟩ => kind.constant pos

def ExprKind.constant (pos : Position) : ExprKind → Except Fault Value
  | .const c =>
    match c.value with
    | some v => .ok v
    | none => .error (Constant.notConstant pos)
  | .paren inner => inner.constant
  | .array items => do return .array (← constantItems items)
  | .object fields => do return .ofFields (← constantFields fields)
  | .unary op false operand => do op.applyToConstant (← operand.constant) pos
  | .binary op left right => do Value.applyBinary op (← left.constant) (← right.constant) pos
  | _ => .error (Constant.notConstant pos)

def constantItems : List Expr → Except Fault (List Value)
  | [] => .ok []
  | e :: es => do return (← e.constant) :: (← constantItems es)

def constantFields : List ObjectField → Except Fault (List (String × Value))
  | [] => .ok []
  | ⟨name, e, _⟩ :: fields => do return (name, ← e.constant) :: (← constantFields fields)

end

end HaxeMacro
