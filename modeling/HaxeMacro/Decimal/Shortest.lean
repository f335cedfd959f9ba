import HaxeMacro.Decimal.Binary

/-! # The shortest decimal that reads back

Of the decimals that round to a given floating point number, `shortest` finds those with the fewest
digits, and of those the one nearest to the number.
-/

namespace HaxeMacro.Decimal

inductive Tie where
  | up | even
  deriving DecidableEq, Repr

/-- `x * 2 ^ e / 10 ^ k` as a fraction. -/
def scaled (x : Nat) (e k : Int) : Nat × Nat :=
  (x * Nat.pow 2 e.toNat * Nat.pow 10 (-k).toNat, Nat.pow 2 (-e).toNat * Nat.pow 10 k.toNat)

def digitCount (n : Nat) : Nat := (Nat.toDigits 10 n).length

/-- The least `j` below `limit` for which `num * 10 ^ j` reaches `den`, counted from `j`. -/
def zerosBefore (num den : Nat) : (limit : Nat) → Nat
  | 0 => 0
  | limit + 1 => if den ≤ num then 0 else zerosBefore (num * 10) den limit + 1

/-- The exponent of the leading digit of `num / den`, for a fraction above `10 ^ (-400)`. -/
def leadingExponent (num den : Nat) : Int :=
  if den ≤ num then (digitCount (num / den) : Int) - 1 else -(zerosBefore num den 400 : Int)

/-- The multiple of `10 ^ k` that is nearest to `m * 2 ^ q`, if it rounds to that number; `closer`
is set when the number below is only half as far away as the one above. -/
def nearestOn (tie : Tie) (m : Nat) (q : Int) (closer : Bool) (k : Int) : Option Nat :=
  let (num, den) := scaled (4 * m) (q - 2) k
  let (low, _) := scaled (4 * m - (if closer then 1 else 2)) (q - 2) k
  let (high, _) := scaled (4 * m + 2) (q - 2) k
  let ends := m % 2 == 0
  let fits (n : Nat) : Bool :=
    if ends then low ≤ n * den && n * den ≤ high else low < n * den && n * den < high
  let below := num / den
  let above := below + 1
  let upper : Bool := match tie with
    | .up => above * den - num ≤ num - below * den
    | .even =>
      above * den - num < num - below * den ||
        (above * den - num == num - below * den && above % 2 == 0)
  match fits below, fits above with
  | false, false => none
  | true, false => some below
  | false, true => some above
  | true, true => some (if upper then above else below)

/-- The first number of digits, counted from `digits`, with which a decimal rounds to
`m * 2 ^ q`. -/
def search (tie : Tie) (m : Nat) (q : Int) (closer : Bool) (top : Int) :
    (tries digits : Nat) → Nat × Int
  | 0, _ => (0, 0)
  | tries + 1, digits =>
    let k := top + 1 - digits
    match nearestOn tie m q closer k with
    | some n => (n, k)
    | none => search tie m q closer top tries (digits + 1)

def stripZeros : (limit : Nat) → Nat × Int → Nat × Int
  | 0, p => p
  | limit + 1, (n, k) =>
    if n ≠ 0 ∧ n % 10 = 0 then stripZeros limit (n / 10, k + 1) else (n, k)

/-- The digits and the exponent of the shortest decimal that rounds to `m * 2 ^ q`, for `m ≠ 0`. -/
def shortest (tie : Tie) (m : Nat) (q : Int) : Nat × Int :=
  let (num, den) := scaled m q 0
  let closer := m == Nat.pow 2 52 && q != -1074
  stripZeros 20 (search tie m q closer (leadingExponent num den) 20 1)

end HaxeMacro.Decimal
