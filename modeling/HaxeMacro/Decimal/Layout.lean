import HaxeMacro.Decimal.Shortest

/-! # Texts of floating point numbers

A layout says how a number is written: when the digits stand around a point and when an exponent
follows them, and what stands for a missing fraction.
-/

namespace HaxeMacro.Decimal

/-- Digits with a point after the first `places` of them; zeros fill the gaps. -/
def positional (digits : String) (exponent : Int) (whole : String) : String :=
  let cs := digits.toList
  let zeros (n : Nat) : List Char := List.replicate n '0'
  let places := (cs.length : Int) + exponent
  if exponent ≥ 0 then String.ofList (cs ++ zeros exponent.toNat) ++ whole
  else if places > 0 then
    String.ofList (cs.take places.toNat ++ '.' :: cs.drop places.toNat)
  else String.ofList ('0' :: '.' :: zeros (-places).toNat ++ cs)

def signed (n : Int) : String :=
  if n < 0 then "-" ++ toString n.natAbs else "+" ++ toString n.natAbs

/-- One digit, the others after a point, and the exponent with its sign. -/
def scientific (digits : String) (exponent : Int) : String :=
  let power := signed ((digits.length : Int) + exponent - 1)
  match digits.toList with
  | [] | [_] => digits ++ "e" ++ power
  | c :: cs => String.ofList (c :: '.' :: cs) ++ "e" ++ power

structure Layout where
  tie : Tie
  whole : String
  /-- Whether the digits of a number without fraction are all written, and not only the shortest
  that read back. -/
  exactWhole : Bool
  /-- The exponents of the leading digit that are written with a point; all, if there are none. -/
  pointRange : Option (Int × Int)
  nan : String
  infinity : String

def Layout.size (layout : Layout) (m : Nat) (q : Int) : String :=
  if m = 0 then "0" ++ layout.whole
  else if layout.exactWhole && (Binary.finite false m q).isWhole then
    toString (m * Nat.pow 2 q.toNat / Nat.pow 2 (-q).toNat) ++ layout.whole
  else
    let (n, k) := shortest layout.tie m q
    let digits := toString n
    let leading := (digits.length : Int) + k - 1
    let points := match layout.pointRange with
      | none => true
      | some (low, high) => low ≤ leading && leading ≤ high
    if points then positional digits k layout.whole else scientific digits k

def Layout.write (layout : Layout) (x : Float) : String :=
  match Binary.ofFloat x with
  | .nan => layout.nan
  | .infinite negative => (if negative then "-" else "") ++ layout.infinity
  | .finite negative m q => (if negative then "-" else "") ++ layout.size m q

end HaxeMacro.Decimal
