import HaxeMacro.Decimal.Binary
import HaxeMacro.Diagnostic.Error
import HaxeMacro.Program.Path
import HaxeMacro.Value.Text

/-! # Operators on values

Whole numbers wrap around at 64 bits, except that a remainder and a negation that leave this range
are an overflow.
-/

namespace HaxeMacro

namespace Value

/-! ## Kinds of operators -/

def typeFault {α : Type} (message : String) (pos : Position) : Except Fault α :=
  .error (.error (.argumentType message pos))

/-- Texts take anything, numbers only numbers. -/
def add (left right : Value) (pos : Position) : Except Fault Value :=
  match left, right with
  | string a, b => .ok (string (a ++ b.text))
  | a, string b => .ok (string (a.text ++ b))
  | int a, int b => .ok (int (a + b))
  | float a, float b => .ok (float (a + b))
  | int a, float b => .ok (float (a.toFloat + b))
  | float a, int b => .ok (float (a + b.toFloat))
  | a, b => typeFault ("cannot add " ++ a.typeName ++ " and " ++ b.typeName) pos

/-- An operator on two numbers; one float makes the other operand a float. -/
def numeric (onInts : Int64 → Int64 → Except Fault Int64) (onFloats : Float → Float → Float)
    (left right : Value) (pos : Position) : Except Fault Value :=
  match left, right with
  | int a, int b => (onInts a b).map int
  | float a, float b => .ok (float (onFloats a b))
  | int a, float b => .ok (float (onFloats a.toFloat b))
  | float a, int b => .ok (float (onFloats a b.toFloat))
  | a, b =>
    typeFault ("arithmetic operation requires numeric types, found " ++ a.typeName ++ " and " ++
      b.typeName) pos

def bitwise (f : Int64 → Int64 → Int64) (left right : Value) (pos : Position) :
    Except Fault Value :=
  match left, right with
  | int a, int b => .ok (int (f a b))
  | a, b =>
    typeFault ("bitwise operation requires Int, found " ++ a.typeName ++ " and " ++ b.typeName) pos

/-- The remainder toward zero. The least number has none when it is divided by -1: the quotient
would be too large. -/
def remainderOfInts (a b : Int64) : Except Fault Int64 :=
  if a = Int64.minValue ∧ b = -1 then .error (.stopped .overflow) else .ok (a % b)

/-- The negation of a whole number; the least one has none. -/
def negate (i : Int64) : Except Fault Int64 :=
  if i = Int64.minValue then .error (.stopped .overflow) else .ok (-i)

/-- The order of two numbers; NaN counts as equal to everything. -/
def compareFloats (a b : Float) : Ordering :=
  if a < b then .lt else if b < a then .gt else .eq

def compareInts (a b : Int64) : Ordering :=
  if a.toInt < b.toInt then .lt else if b.toInt < a.toInt then .gt else .eq

def compare? (left right : Value) : Option Ordering :=
  match left, right with
  | int a, int b => some (compareInts a b)
  | string a, string b => some (compareText a b)
  | a, b =>
    match a.float?, b.float? with
    | some x, some y => some (compareFloats x y)
    | _, _ => none

def comparison (holds : Ordering → Bool) (left right : Value) (pos : Position) :
    Except Fault Value :=
  match compare? left right with
  | some order => .ok (bool (holds order))
  | none => typeFault ("cannot compare " ++ left.typeName ++ " and " ++ right.typeName) pos

/-- The whole numbers from `start` up to, and without, `stop`. Limits of memory are left out:
there may be more numbers than a machine can hold. -/
def interval (start stop : Int64) : List Value :=
  (List.range (stop.toInt - start.toInt).toNat).map fun n => int (start + Int64.ofNat n)

def shiftRightZeros (a b : Int64) : Int64 := (a.toUInt64 >>> b.toUInt64).toInt64

/-! ## All operators -/

/-- Applies a binary operator. Both operands are evaluated already. -/
def applyBinary (op : BinaryOp) (left right : Value) (pos : Position) : Except Fault Value :=
  match op with
  | .add => add left right pos
  | .sub => numeric (fun a b => .ok (a - b)) (· - ·) left right pos
  | .mult => numeric (fun a b => .ok (a * b)) (· * ·) left right pos
  | .div =>
    match left.float?, right.float? with
    | some a, some b => .ok (float (a / b))
    | _, _ => typeFault ("cannot divide " ++ left.typeName ++ " by " ++ right.typeName) pos
  | .mod =>
    match right with
    | int 0 => typeFault "Division by zero" pos
    | _ => numeric remainderOfInts remainder left right pos
  | .eq => .ok (bool (left == right))
  | .notEq => .ok (bool (!(left == right)))
  | .lt => comparison (· == .lt) left right pos
  | .lte => comparison (· != .gt) left right pos
  | .gt => comparison (· == .gt) left right pos
  | .gte => comparison (· != .lt) left right pos
  | .boolAnd => .ok (bool (left.isTruthy && right.isTruthy))
  | .boolOr => .ok (bool (left.isTruthy || right.isTruthy))
  | .and => bitwise (· &&& ·) left right pos
  | .or => bitwise (· ||| ·) left right pos
  | .xor => bitwise (· ^^^ ·) left right pos
  | .shl => bitwise (· <<< ·) left right pos
  | .shr => bitwise (· >>> ·) left right pos
  | .ushr => bitwise shiftRightZeros left right pos
  | .interval =>
    match left, right with
    | int a, int b => .ok (array (interval a b))
    | _, _ => typeFault "interval bounds must be Int" pos
  | .nullCoal => .ok (if left.isNull then right else left)
  | op => .error (.error (.unsupported ("binary operator " ++ op.symbol) pos))

end Value

end HaxeMacro
