import HaxeMacro.Text.Character
import HaxeMacro.Decimal.Binary

/-! # Reading numbers

Whole numbers of 64 bits in decimal or hexadecimal, and decimals as the nearest floating point
number.
-/

namespace HaxeMacro.Decimal

open Text

def digitValue (c : Char) : Nat :=
  if isDigit c then c.toNat - '0'.toNat
  else if c.toNat.ble 'F'.toNat then c.toNat - 'A'.toNat + 10
  else c.toNat - 'a'.toNat + 10

def digitsValue (base : Nat) (digits : List Char) : Nat :=
  digits.foldl (fun n c => n * base + digitValue c) 0

def readSign : List Char → Bool × List Char
  | '-' :: rest => (true, rest)
  | '+' :: rest => (false, rest)
  | rest => (false, rest)

/-- A number of 64 bits with its sign, or nothing if it does not fit. -/
def fit64 (negative : Bool) (n : Nat) : Option Int64 :=
  if negative then if n ≤ Nat.pow 2 63 then some (Int64.ofInt (-(n : Int))) else none
  else if n < Nat.pow 2 63 then some (Int64.ofInt n) else none

def readWhole (base : Nat) (p : Char → Bool) (s : List Char) : Option Int64 :=
  let (negative, digits) := readSign s
  if !digits.isEmpty && digits.all p then fit64 negative (digitsValue base digits) else none

/-- A whole number of 64 bits; `0x` or `0X` opens a hexadecimal one. -/
def readInt64 (text : String) : Option Int64 :=
  match text.toList with
  | '0' :: 'x' :: rest | '0' :: 'X' :: rest => readWhole 16 isHexDigit rest
  | s => readWhole 10 isDigit s

/-- The exponent of a decimal: nothing, or `e` and a whole number. -/
def readPower : List Char → Option Int
  | [] => some 0
  | c :: rest =>
    if c == 'e' || c == 'E' then
      let (negative, digits) := readSign rest
      if !digits.isEmpty && digits.all isDigit then
        some (if negative then -(digitsValue 10 digits : Int) else digitsValue 10 digits)
      else none
    else none

/-- The floating point number nearest to `digits * 10 ^ power`, where `places` is the number of
digits. Beyond the range of the format there is only zero or infinity, whatever the digits are. -/
def nearest (digits : Nat) (places : Nat) (power : Int) : Float :=
  if digits = 0 then 0.0
  else if power + places > 310 then 1.0 / 0.0
  else if power + places < -330 then 0.0
  else if power ≥ 0 then Float.ofScientific digits false power.toNat
  else Float.ofScientific digits true (-power).toNat

def readWord (s : List Char) : Option Float :=
  match String.ofList (s.map Char.toLower) with
  | "inf" | "infinity" => some (1.0 / 0.0)
  | "nan" => some (0.0 / 0.0)
  | _ => none

/-- A decimal without a sign: digits with an optional point, and an optional exponent. -/
def readDecimal (s : List Char) : Option Float :=
  let whole := s.takeWhile isDigit
  let (fraction, rest) := match s.dropWhile isDigit with
    | '.' :: rest => (rest.takeWhile isDigit, rest.dropWhile isDigit)
    | rest => ([], rest)
  if whole.isEmpty && fraction.isEmpty then none
  else
    (readPower rest).map fun power =>
      let digits := (whole ++ fraction).dropWhile (· == '0')
      nearest (digitsValue 10 digits) digits.length (power - fraction.length)

def readFloat (text : String) : Option Float :=
  let (negative, s) := readSign text.toList
  ((readWord s).or (readDecimal s)).map fun size => if negative then -size else size

end HaxeMacro.Decimal
