import HaxeMacro.Config.Datetime
import HaxeMacro.Program.Path
import HaxeMacro.Value.Json

/-! # TOML values

The values of a settings file, and how they are written inside a line.
-/

namespace HaxeMacro

inductive Toml where
  | string (s : String)
  | int (i : Int64)
  | float (x : Float)
  | bool (b : Bool)
  | datetime (d : Datetime)
  | array (items : List Toml)
  | table (entries : List (String × Toml))

namespace Toml

/-- Floats have a point and never an exponent, and the fewest digits that read back. -/
def floatLayout : Decimal.Layout where
  tie := .up
  whole := ".0"
  exactWhole := false
  pointRange := none
  nan := "nan"
  infinity := "inf"

/-! ## Strings -/

/-- The most quotes `q` that follow each other. -/
def longestRun (q : Char) (s : List Char) : Nat :=
  (s.foldl (fun (best, run) c => if c = q then (max best (run + 1), run + 1) else (best, 0))
    (0, 0)).1

def isControl (c : Char) : Bool := (c.toNat < 32 && c != '\t') || c.toNat == 127

def hexWord (n : Nat) : List Char :=
  (hexByte (n / 256) ++ hexByte (n % 256)).map Char.toUpper

/-- A character between double quotes; only a string on several lines keeps its line ends. -/
def escapeChar (lines : Bool) (c : Char) : List Char :=
  match c with
  | '"' => ['\\', '"']
  | '\\' => ['\\', '\\']
  | '\t' => ['\\', 't']
  | '\n' => if lines then ['\n'] else ['\\', 'n']
  | '\r' => ['\\', 'r']
  | '\x08' => ['\\', 'b']
  | '\x0c' => ['\\', 'f']
  | c => if isControl c then '\\' :: 'u' :: hexWord c.toNat else [c]

/-- Characters between double quotes, after `run` quotes that follow each other; a string on several
lines keeps two of them. -/
def escapeChars (lines : Bool) : (run : Nat) → List Char → List Char
  | _, [] => []
  | run, '"' :: cs =>
    if lines && run < 2 then '"' :: escapeChars lines (run + 1) cs
    else escapeChar lines '"' ++ escapeChars lines 0 cs
  | _, c :: cs => escapeChar lines c ++ escapeChars lines 0 cs

def quoted (s : List Char) : String := "\"" ++ String.ofList (escapeChars false 0 s) ++ "\""

def verbatim (s : List Char) : String := "'" ++ String.ofList s ++ "'"

/-- The line end after the opening quotes of a string on several lines. -/
def opening (s : List Char) : String := if s.contains '\n' then "\n" else ""

def quotedLines (s : List Char) : String :=
  "\"\"\"" ++ opening s ++ String.ofList (escapeChars true 0 s) ++ "\"\"\""

def verbatimLines (s : List Char) : String := "'''" ++ opening s ++ String.ofList s ++ "'''"

/-- A string between the quotes that need the fewest escapes. -/
def stringText (s : String) : String :=
  let cs := s.toList
  let controls := cs.any fun c => isControl c && c != '\n'
  let newline := cs.contains '\n'
  let escape := cs.contains '\\'
  let doubles := longestRun '"' cs
  let singles := longestRun '\'' cs
  if !controls && !escape && doubles == 0 && !newline then quoted cs
  else if !controls && singles == 0 && !newline then verbatim cs
  else if !controls && !escape && doubles ≤ 2 then quotedLines cs
  else if !controls && singles ≤ 2 then verbatimLines cs
  else if newline then quotedLines cs
  else quoted cs

/-- A key, with quotes only if it needs them. It stands on one line. -/
def keyText (key : String) : String :=
  let cs := key.toList
  let bare (c : Char) : Bool := Text.isAsciiLetter c || Text.isDigit c || c == '_' || c == '-'
  let plain := !cs.any fun c => isControl c || c == '\''
  let escape := cs.any fun c => isControl c || c == '\\' || c == '"'
  if key != "" && cs.all bare then key
  else if escape && plain then verbatim cs
  else quoted cs

/-! ## Values -/

def insertEntry (entry : String × String) : List (String × String) → List (String × String)
  | [] => [entry]
  | other :: rest =>
    if compareText entry.1 other.1 == .lt then entry :: other :: rest
    else other :: insertEntry entry rest

def sortEntries (entries : List (String × String)) : List (String × String) :=
  entries.foldl (fun sorted entry => insertEntry entry sorted) []

def braced : List String → String
  | [] => "\x7b\x7d"
  | parts => "\x7b " ++ separated ", " parts ++ " \x7d"

mutual

def text : Toml → String
  | string s => stringText s
  | int i => wholeText i
  | float x => floatLayout.write x
  | bool true => "true"
  | bool false => "false"
  | datetime d => d.text
  | array items => "[" ++ separated ", " (textOfItems items) ++ "]"
  | table entries =>
    braced ((sortEntries (textOfEntries entries)).map fun e => keyText e.1 ++ " = " ++ e.2)

def textOfItems : List Toml → List String
  | [] => []
  | t :: ts => t.text :: textOfItems ts

def textOfEntries : List (String × Toml) → List (String × String)
  | [] => []
  | (key, t) :: rest => (key, t.text) :: textOfEntries rest

end

/-! ## Dates as tables -/

/-- The only key of a table that stands for a date where values are strings, numbers, arrays and
tables. -/
def dateKey : String := "$__toml_private_datetime"

def dateEntries (d : Datetime) : List (String × Toml) := [(dateKey, string d.text)]

mutual

/-- Every table whose first key is that of dates becomes the date. -/
def withDates? : Toml → Option Toml
  | array items => return array (← withDatesItems? items)
  | table [] => some (table [])
  | table ((key, v) :: entries) =>
    if key = dateKey then
      match v with
      | string s => (Datetime.ofText? s).map datetime
      | _ => none
    else do
      let v ← v.withDates?
      return table ((key, v) :: (← withDatesEntries? entries))
  | t => some t

def withDatesItems? : List Toml → Option (List Toml)
  | [] => some []
  | t :: ts => do
    let t ← t.withDates?
    return t :: (← withDatesItems? ts)

def withDatesEntries? : List (String × Toml) → Option (List (String × Toml))
  | [] => some []
  | (key, t) :: rest => do
    let t ← t.withDates?
    return (key, t) :: (← withDatesEntries? rest)

end

/-! ## Entries -/

def get? (key : String) : List (String × Toml) → Option Toml
  | [] => none
  | (k, t) :: rest => if k = key then some t else get? key rest

end Toml

end HaxeMacro
