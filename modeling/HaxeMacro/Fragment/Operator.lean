/-! # Operators

The unary and binary operators of expressions, how they are written, and how tightly the binary ones
bind.
-/

namespace HaxeMacro

/-- A unary operator; `increment` and `decrement` stand on either side of their operand. -/
inductive UnaryOp where
  | increment | decrement | not | neg | negBits | spread
  deriving DecidableEq, Repr, Inhabited

/-- A binary operator; `assignOp add` is the compound assignment `+=`. -/
inductive BinaryOp where
  | add | mult | div | sub
  | assign
  | eq | notEq | gt | gte | lt | lte
  | and | or | xor
  | boolAnd | boolOr
  | shl | shr | ushr
  | mod
  | assignOp (op : BinaryOp)
  | interval | arrow | isIn | nullCoal
  deriving DecidableEq, Repr, Inhabited

def UnaryOp.symbol : UnaryOp → String
  | increment => "++"
  | decrement => "--"
  | not => "!"
  | neg => "-"
  | negBits => "~"
  | spread => "..."

def BinaryOp.symbol : BinaryOp → String
  | add => "+"
  | mult => "*"
  | div => "/"
  | sub => "-"
  | assign => "="
  | eq => "=="
  | notEq => "!="
  | gt => ">"
  | gte => ">="
  | lt => "<"
  | lte => "<="
  | and => "&"
  | or => "|"
  | xor => "^"
  | boolAnd => "&&"
  | boolOr => "||"
  | shl => "<<"
  | shr => ">>"
  | ushr => ">>>"
  | mod => "%"
  | assignOp op => op.symbol ++ "="
  | interval => "..."
  | arrow => "=>"
  | isIn => "in"
  | nullCoal => "??"

/-- The binding strength of an operator: a higher level binds tighter. -/
def BinaryOp.level : BinaryOp → Nat
  | assign | assignOp _ | arrow => 1
  | nullCoal => 3
  | boolOr => 4
  | boolAnd => 5
  | interval | isIn => 6
  | eq | notEq | gt | gte | lt | lte => 7
  | or | and | xor => 8
  | shl | shr | ushr => 9
  | add | sub => 10
  | mult | div => 11
  | mod => 12

/-- The level of `c ? a : b`, between assignments and `??`. -/
def ternaryLevel : Nat := 2

/-- Whether `a op b op c` groups to the right. -/
def BinaryOp.groupsRight : BinaryOp → Bool
  | assign | assignOp _ | arrow | nullCoal => true
  | _ => false

def BinaryOp.isAssignment : BinaryOp → Bool
  | assign | assignOp _ => true
  | _ => false

end HaxeMacro
