import HaxeMacro.Fragment.Basic

/-! # Paths of modules and types

`pack.name`, where the package is a list of segments. Paths are ordered by package and then by name.
-/

namespace HaxeMacro

structure Path where
  pack : List String
  name : String
  deriving DecidableEq, Repr, Inhabited

/-! ## Order of texts -/

def compareNat (a b : Nat) : Ordering :=
  if a.blt b then .lt else if b.blt a then .gt else .eq

/-- Compares lists by their first difference; a list comes before its continuations. -/
def compareLists {α : Type} (compare : α → α → Ordering) : List α → List α → Ordering
  | [], [] => .eq
  | [], _ :: _ => .lt
  | _ :: _, [] => .gt
  | a :: as, b :: bs =>
    match compare a b with
    | .eq => compareLists compare as bs
    | order => order

/-- Compares texts by the code points of their characters. -/
def compareText (a b : String) : Ordering :=
  compareLists (fun c d => compareNat c.toNat d.toNat) a.toList b.toList

/-- Splits a text at every `separator`; without one there is a single part. -/
def splitAt (separator : Char) : List Char → List (List Char)
  | [] => [[]]
  | c :: cs =>
    if c = separator then [] :: splitAt separator cs
    else
      match splitAt separator cs with
      | [] => [[c]]
      | part :: parts => (c :: part) :: parts

def splitLast (separator : Char) (s : List Char) : Option (List Char × List Char) :=
  if s.contains separator then
    let after := (s.reverse.takeWhile (· != separator)).reverse
    some (s.take (s.length - after.length - 1), after)
  else none

namespace Path

/-- The path of a dotted text; its last segment is the name. -/
def ofText (text : String) : Path :=
  let parts := (splitAt '.' text.toList).map String.ofList
  ⟨parts.dropLast, parts.getLast?.getD ""⟩

def ofTypePath (p : TypePath) : Path := ⟨p.pack, p.sub.getD p.name⟩

def isEmpty (p : Path) : Bool := p.pack.isEmpty && p.name == ""

def text (p : Path) : String := p.pack.foldr (fun part rest => part ++ "." ++ rest) p.name

def segments (p : Path) : List String := p.pack ++ [p.name]

/-- Compares by package and then by name. -/
def compare (a b : Path) : Ordering :=
  match compareLists compareText a.pack b.pack with
  | .eq => compareText a.name b.name
  | order => order

def le (a b : Path) : Bool :=
  match compare a b with
  | .gt => false
  | _ => true

def sort (paths : List Path) : List Path := paths.mergeSort le

/-- The paths in order, each of them once. -/
def sortDistinct (paths : List Path) : List Path := sort paths.eraseDups

end Path

end HaxeMacro
