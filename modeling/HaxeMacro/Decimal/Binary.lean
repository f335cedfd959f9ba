/-! # Binary floating point numbers, exactly

A finite number is `m * 2 ^ q` with a sign. What needs more than one rounded operation is computed
on `m` and `q` in whole numbers.
-/

namespace HaxeMacro

inductive Binary where
  | nan
  | infinite (negative : Bool)
  /-- `m * 2 ^ q`, with its sign. -/
  | finite (negative : Bool) (m : Nat) (q : Int)
  deriving DecidableEq, Repr

namespace Binary

def ofBits (bits : UInt64) : Binary :=
  let n := bits.toNat
  let negative := n / Nat.pow 2 63 == 1
  let exponent : Nat := n / Nat.pow 2 52 % Nat.pow 2 11
  let fraction : Nat := n % Nat.pow 2 52
  if exponent = 2047 then if fraction = 0 then infinite negative else nan
  else if exponent = 0 then finite negative fraction (-1074)
  else finite negative (fraction + Nat.pow 2 52) ((exponent : Int) - 1075)

def ofFloat (x : Float) : Binary := ofBits x.toBits

/-- The power of two with exponent `q`, from the least one above zero up to the largest. -/
def powerOfTwo (q : Int) : Float :=
  if -1022 ≤ q then Float.ofBits (UInt64.ofNat ((q + 1023).toNat * Nat.pow 2 52))
  else Float.ofBits (UInt64.ofNat (Nat.pow 2 (q + 1074).toNat))

/-- The number as floating point; it is exact for `m < 2 ^ 53` in the range of the format. -/
def toFloat : Binary → Float
  | nan => 0.0 / 0.0
  | infinite negative => if negative then -1.0 / 0.0 else 1.0 / 0.0
  | finite negative m q =>
    let size := Float.ofNat m * powerOfTwo q
    if negative then -size else size

/-- Whether the number has no fraction. Neither infinity has one that is zero. -/
def isWhole : Binary → Bool
  | finite _ m q => q ≥ 0 || m % Nat.pow 2 (-q).toNat == 0
  | _ => false

/-- The remainder of the division of `x` by `y` toward zero; it has the sign of `x`. -/
def rem : Binary → Binary → Binary
  | nan, _ | _, nan | infinite _, _ | _, finite _ 0 _ => nan
  | finite s m q, infinite _ => finite s m q
  | finite s m q, finite _ n r =>
    let low := min q r
    finite s (m * Nat.pow 2 (q - low).toNat % (n * Nat.pow 2 (r - low).toNat)) low

end Binary

def remainder (x y : Float) : Float := ((Binary.ofFloat x).rem (Binary.ofFloat y)).toFloat

end HaxeMacro
