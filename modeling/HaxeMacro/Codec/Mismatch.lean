import HaxeMacro.Value.Text

/-! # Mismatches

What a reader of values expected, what it found, and where.
-/

namespace HaxeMacro

inductive Step where
  | field (name : String)
  | arg (constructor : String) (index : Nat)
  | item (index : Nat)
  deriving DecidableEq, Repr

def Step.text : Step → String
  | field name => "." ++ name
  | arg constructor index => "." ++ constructor ++ "[" ++ toString index ++ "]"
  | item index => "[" ++ toString index ++ "]"

/-- One place where a value does not have the form that a reader expects. -/
structure Mismatch where
  path : List Step
  expected : String
  found : String
  deriving DecidableEq, Repr

namespace Mismatch

def place (m : Mismatch) : String := m.path.foldr (fun step rest => step.text ++ rest) ""

/-- How a mismatch is reported; the whole value is the root. -/
def text (m : Mismatch) : String :=
  "at " ++ (if m.place = "" then "<root>" else m.place) ++ ": expected " ++ m.expected ++
    ", found " ++ m.found

/-- The same mismatch, seen from one step further out. -/
def under (step : Step) (m : Mismatch) : Mismatch := { m with path := step :: m.path }

end Mismatch

/-- How a mismatch calls the value that it found. -/
def Value.describe : Value → String
  | .enum type constructor _ _ => type ++ "." ++ constructor
  | .string s => "String \"" ++ s ++ "\""
  | .int i => "Int " ++ wholeText i
  | v => v.typeName

/-- The part of a value that a step leads to. A missing field of an object reads as null. -/
def Value.step? : Value → Step → Option Value
  | .object fields, .field name => some (Fields.get fields name)
  | .enum _ constructor _ args, .arg c i => if constructor = c then args[i]? else none
  | .array items, .item i => items[i]?
  | _, _ => none

def Value.follow? (v : Value) : List Step → Option Value
  | [] => some v
  | step :: path => (v.step? step).bind fun w => w.follow? path

end HaxeMacro
