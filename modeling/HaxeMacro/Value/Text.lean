import HaxeMacro.Decimal.Layout
import HaxeMacro.Value.Basic

/-! # The text of a value

How a value is written where a program shows it. Strings stand without quotes.
-/

namespace HaxeMacro

/-- Floats have a point and never an exponent; those without fraction are written in full. -/
def shownFloat : Decimal.Layout where
  tie := .up
  whole := ".0"
  exactWhole := true
  pointRange := none
  nan := "NaN"
  infinity := "inf"

/-- Texts with a separator between them. -/
def separated (separator : String) : List String → String
  | [] => ""
  | [s] => s
  | s :: rest => s ++ separator ++ separated separator rest

def wholeText (i : Int64) : String := toString i.toInt

namespace Value

mutual

def text : Value → String
  | null => "null"
  | bool true => "true"
  | bool false => "false"
  | int i => wholeText i
  | float x => shownFloat.write x
  | string s => s
  | object fields => "\x7b" ++ separated ", " (textOfFields fields) ++ "\x7d"
  | function name _ => "<function:" ++ name ++ ">"
  | array items => "[" ++ separated "," (textOfItems items) ++ "]"
  | enum _ constructor _ [] => constructor
  | enum _ constructor _ (arg :: args) =>
    constructor ++ "(" ++ separated ", " (arg.text :: textOfItems args) ++ ")"

def textOfItems : List Value → List String
  | [] => []
  | v :: vs => v.text :: textOfItems vs

def textOfFields : List (String × Value) → List String
  | [] => []
  | (name, v) :: rest => (name ++ ": " ++ v.text) :: textOfFields rest

end

end Value

end HaxeMacro
