import HaxeMacro.Value.Text

/-! # Values as JSON

The form of a value in reports: one line, or one line for each part.
-/

namespace HaxeMacro

/-- A JSON text before it is laid out. -/
inductive JsonTree where
  | atom (text : String)
  | array (items : List JsonTree)
  | object (fields : List (String × JsonTree))

/-- Floats in JSON have a point, or an exponent when they are very small or very large; JSON has no
text for the others. -/
def jsonFloat : Decimal.Layout where
  tie := .even
  whole := ".0"
  exactWhole := false
  pointRange := some (-5, 15)
  nan := "null"
  infinity := "null"

def jsonFloatText (x : Float) : String :=
  match Binary.ofFloat x with
  | .finite .. => jsonFloat.write x
  | _ => "null"

/-- The digits of a byte in base sixteen. -/
def hexByte (n : Nat) : List Char := [Nat.digitChar (n / 16), Nat.digitChar (n % 16)]

def jsonChar (c : Char) : List Char :=
  if c = '"' then ['\\', '"']
  else if c = '\\' then ['\\', '\\']
  else if c = '\x08' then ['\\', 'b']
  else if c = '\t' then ['\\', 't']
  else if c = '\n' then ['\\', 'n']
  else if c = '\x0c' then ['\\', 'f']
  else if c = '\r' then ['\\', 'r']
  else if c.toNat < 32 then '\\' :: 'u' :: '0' :: '0' :: hexByte c.toNat
  else [c]

def jsonString (s : String) : String :=
  String.ofList ('"' :: s.toList.flatMap jsonChar ++ ['"'])

namespace JsonTree

def text (s : String) : JsonTree := atom (jsonString s)

def null : JsonTree := atom "null"

def flag (b : Bool) : JsonTree := atom (if b then "true" else "false")

def number (n : Nat) : JsonTree := atom (toString n)

def list {α : Type} (f : α → JsonTree) (items : List α) : JsonTree := array (items.map f)

def texts (items : List String) : JsonTree := list text items

def option {α : Type} (f : α → JsonTree) : Option α → JsonTree
  | none => null
  | some a => f a

mutual

def compact : JsonTree → String
  | atom text => text
  | array items => "[" ++ separated "," (compactItems items) ++ "]"
  | object fields => "\x7b" ++ separated "," (compactFields fields) ++ "\x7d"

def compactItems : List JsonTree → List String
  | [] => []
  | t :: ts => t.compact :: compactItems ts

def compactFields : List (String × JsonTree) → List String
  | [] => []
  | (name, t) :: rest => (jsonString name ++ ":" ++ t.compact) :: compactFields rest

end

/-- Two blanks for each level. -/
def indent (level : Nat) : String := String.ofList (List.replicate (2 * level) ' ')

/-- Parts between brackets, each on a line of its own; brackets without parts stay together. -/
def bracketed (opening closing : String) (level : Nat) (parts : List String) : String :=
  match parts with
  | [] => opening ++ closing
  | part :: rest =>
    opening ++ "\n" ++
      separated ",\n" ((part :: rest).map fun p => indent (level + 1) ++ p) ++ "\n" ++
      indent level ++ closing

mutual

/-- The tree with a line for each part, at a level of indentation. -/
def pretty (level : Nat) : JsonTree → String
  | atom text => text
  | array items => bracketed "[" "]" level (prettyItems (level + 1) items)
  | object fields => bracketed "\x7b" "\x7d" level (prettyFields (level + 1) fields)

def prettyItems (level : Nat) : List JsonTree → List String
  | [] => []
  | t :: ts => t.pretty level :: prettyItems level ts

def prettyFields (level : Nat) : List (String × JsonTree) → List String
  | [] => []
  | (name, t) :: rest => (jsonString name ++ ": " ++ t.pretty level) :: prettyFields level rest

end

end JsonTree

namespace Value

mutual

def json : Value → JsonTree
  | null => .null
  | bool b => .flag b
  | int i => .atom (wholeText i)
  | float x => .atom (jsonFloatText x)
  | string s => .text s
  | object fields => .object (jsonFields fields)
  | function name arity => .object [("function", .text name), ("arity", .number arity)]
  | array items => .array (jsonItems items)
  | enum type constructor index args => .object [
      ("enum", .text type), ("constructor", .text constructor),
      ("index", .number index), ("args", .array (jsonItems args))]

def jsonItems : List Value → List JsonTree
  | [] => []
  | v :: vs => v.json :: jsonItems vs

def jsonFields : List (String × Value) → List (String × JsonTree)
  | [] => []
  | (name, v) :: rest => (name, v.json) :: jsonFields rest

end

end Value

end HaxeMacro
