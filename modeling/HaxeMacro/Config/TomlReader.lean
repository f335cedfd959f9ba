import HaxeMacro.Config.Toml

/-! # Reading TOML

A settings file is a sequence of headers and settings. Headers open tables, and dotted keys open
tables inside them; no table is opened twice in the same way and no key is set twice.
-/

namespace HaxeMacro.TomlReader

open HaxeMacro.Parser Token Text

/-! ## Blanks and line ends -/

def spaces : Parser Unit := fun s => .done () (s.dropWhile fun c => c == ' ' || c == '\t')

def newline : Parser Unit
  | '\n' :: rest => .done () rest
  | '\r' :: '\n' :: rest => .done () rest
  | s => .refused s

def inComment (c : Char) : Bool := c == '\t' || (32 ≤ c.toNat && c.toNat != 127)

def comment : Parser Unit
  | '#' :: rest => .done () (rest.dropWhile inComment)
  | s => .refused s

def lineRest : Parser Unit := do
  spaces
  let _ ← optional comment

def atEnd : Parser Unit
  | [] => .done () []
  | s => .refused s

def lineEnd : Parser Unit := do
  lineRest
  or newline atEnd

/-- Blanks, comments and line ends between the items of an array. -/
def gaps : Parser Unit := do
  lineRest
  let _ ← many (do newline; lineRest)

/-! ## Strings -/

def codePoint (digits : List Char) : Option Char :=
  let n := Decimal.digitsValue 16 digits
  if digits.all isHexDigit && (n < 0xD800 || (0xDFFF < n && n < 0x110000)) then some (Char.ofNat n)
  else none

def escape : Parser Char
  | 'b' :: rest => .done '\x08' rest
  | 't' :: rest => .done '\t' rest
  | 'n' :: rest => .done '\n' rest
  | 'f' :: rest => .done '\x0c' rest
  | 'r' :: rest => .done '\r' rest
  | '"' :: rest => .done '"' rest
  | '\\' :: rest => .done '\\' rest
  | 'u' :: a :: b :: c :: d :: rest =>
    match codePoint [a, b, c, d] with
    | some x => .done x rest
    | none => .refused ('u' :: a :: b :: c :: d :: rest)
  | 'U' :: a :: b :: c :: d :: e :: f :: g :: h :: rest =>
    match codePoint [a, b, c, d, e, f, g, h] with
    | some x => .done x rest
    | none => .refused ('U' :: a :: b :: c :: d :: e :: f :: g :: h :: rest)
  | s => .refused s

def isPlain (c : Char) : Bool := inComment c

def basicChar : Parser Char := or
  (do let _ ← char (· == '\\'); escape)
  (char fun c => isPlain c && c != '"' && c != '\\')

def basicString : Parser String := do
  text "\""
  let cs ← many basicChar
  text "\""
  return String.ofList cs

def literalString : Parser String := do
  text "'"
  let cs ← many (char fun c => isPlain c && c != '\'')
  text "'"
  return String.ofList cs

/-- A backslash at the end of a line takes away all blanks up to the next character. -/
def lineContinuation : Parser (List Char) := do
  text "\\"
  spaces
  let _ ← sepBy1 newline spaces
  spaces
  return []

/-- What is inside a string on several lines between quotes `q`; up to two quotes may stand
alone. -/
def linesPart (q : Char) (basic : Bool) : Parser (List Char) := oneOf [
  do newline; return ['\n'],
  if basic then lineContinuation else refuse,
  if basic then do return [← basicChar] else do return [← char fun c => isPlain c && c != q],
  do
    let _ ← char (· == q)
    lacks (text (String.ofList [q, q]))
    return [q]]

/-- A string on several lines. Up to two quotes may stand before the closing ones. -/
def linesString (q : Char) (basic : Bool) : Parser String := do
  text (String.ofList [q, q, q])
  let _ ← optional newline
  let parts ← many (linesPart q basic)
  let extra ← oneOf [
    do text (String.ofList [q, q, q, q, q]); return [q, q],
    do text (String.ofList [q, q, q, q]); return [q],
    do text (String.ofList [q, q, q]); return []]
  return String.ofList (parts.flatten ++ extra)

def string : Parser String := oneOf [
  linesString '"' true, linesString '\'' false, basicString, literalString]

/-! ## Keys -/

def bareKey : Parser String := do
  return String.ofList (← span1 fun c => isAsciiLetter c || isDigit c || c == '_' || c == '-')

/-- How deep a key reaches at most, and how deep values lie in each other. -/
def deepest : Nat := 79

def key : Parser (List String) := do
  let ks ← sepBy1 (do
    spaces
    let k ← oneOf [basicString, literalString, bareKey]
    spaces
    return k) (text ".")
  if ks.length ≤ deepest then return ks else refuse

/-! ## Numbers -/

/-- Digits, where an underscore may stand between two of them. -/
def digits (p : Char → Bool) : Parser (List Char) := do
  return (← sepBy1 (span1 p) (text "_")).flatten

def wholeDigits : Parser (List Char) := fun s =>
  match digits isDigit s with
  | .done ('0' :: _ :: _) _ => .refused s
  | reply => reply

def sign : Parser (List Char) := do
  return (← optional (char fun c => c == '+' || c == '-')).toList

/-- A number that must fit. -/
def fitting (n : Option Int64) : Parser Toml :=
  match n with
  | some i => return .int i
  | none => refuse

/-- Digits of a base, after its mark. -/
def radixInt (mark : String) (base : Nat) (p : Char → Bool) : Parser Toml := do
  text mark
  let ds ← digits p
  fitting (Decimal.fit64 false (Decimal.digitsValue base ds))

def decimalInt : Parser Toml := do
  let s ← sign
  let ds ← wholeDigits
  fitting (Decimal.fit64 (s == ['-']) (Decimal.digitsValue 10 ds))

def integer : Parser Toml := oneOf [
  radixInt "0x" 16 isHexDigit, radixInt "0o" 8 (fun c => isDigit c && c != '8' && c != '9'),
  radixInt "0b" 2 (fun c => c == '0' || c == '1'), decimalInt]

def power : Parser (List Char) := do
  let _ ← char fun c => c == 'e' || c == 'E'
  let s ← sign
  return 'e' :: s ++ (← digits isDigit)

/-- A fraction, a power of ten, or both; the number must not be too large. -/
def decimalFloat : Parser Toml := do
  let s ← sign
  let whole ← wholeDigits
  let tail ← or
    (do
      text "."
      let fraction ← digits isDigit
      return '.' :: fraction ++ (← optional power).getD [])
    power
  match Decimal.readFloat (String.ofList (s ++ whole ++ tail)) with
  | some x => if x == 1.0 / 0.0 then refuse else return .float x
  | none => refuse

def specialFloat : Parser Toml := do
  let s ← sign
  let x ← or (do text "inf"; return (1.0 / 0.0 : Float)) (do text "nan"; return (0.0 / 0.0 : Float))
  return .float (if s == ['-'] then -x else x)

/-! ## Tables under construction -/

inductive Opened where
  | header
  | onTheWay
  | dottedKey
  deriving DecidableEq

mutual

inductive Node where
  | value (v : Toml)
  | table (t : Table)
  | tables (ts : List Table)

structure Table where
  opened : Opened
  entries : List (String × Node)

end

namespace Table

def find? (key : String) : List (String × Node) → Option Node
  | [] => none
  | (k, n) :: rest => if k = key then some n else find? key rest

def replace (key : String) (node : Node) : List (String × Node) → List (String × Node)
  | [] => []
  | (k, n) :: rest => if k = key then (k, node) :: rest else (k, n) :: replace key node rest

def append (t : Table) (key : String) (node : Node) : Table :=
  { t with entries := t.entries ++ [(key, node)] }

/-- Changes the table at the end of a path; tables on the path are opened if they are missing. -/
def update (dotted : Bool) (change : Table → Option Table) : List String → Table → Option Table
  | [], t => change t
  | k :: ks, t =>
    match find? k t.entries with
    | none => do
      let new ← update dotted change ks ⟨if dotted then .dottedKey else .onTheWay, []⟩
      return t.append k (.table new)
    | some (.value _) => none
    | some (.tables ts) => do
      let new ← update dotted change ks (← ts.getLast?)
      return { t with entries := replace k (.tables (ts.dropLast ++ [new])) t.entries }
    | some (.table inner) =>
      if dotted && inner.opened == .header then none
      else do
        let new ← update dotted change ks inner
        return { t with entries := replace k (.table new) t.entries }

/-- Sets a key that is not set yet. A dotted key reaches only tables that dotted keys opened. -/
def set (path : List String) (v : Toml) (t : Table) : Option Table :=
  let keys := path.dropLast
  update true (fun inner =>
    let k := path.getLast?.getD ""
    if (inner.opened == .dottedKey) == keys.isEmpty then none
    else if (find? k inner.entries).isSome then none
    else some (inner.append k (.value v))) keys t

def openTable (path : List String) (t : Table) : Option Table :=
  let k := path.getLast?.getD ""
  update false (fun inner =>
    match find? k inner.entries with
    | none => some (inner.append k (.table ⟨.header, []⟩))
    | some (.table old) =>
      if old.opened = .onTheWay then
        some (Table.append { inner with entries := inner.entries.filter (·.1 != k) } k
          (.table ⟨.header, old.entries⟩))
      else none
    | some _ => none) path.dropLast t

def openItem (path : List String) (t : Table) : Option Table :=
  let k := path.getLast?.getD ""
  update false (fun inner =>
    match find? k inner.entries with
    | none => some (inner.append k (.tables [⟨.header, []⟩]))
    | some (.tables ts) =>
      some { inner with entries := replace k (.tables (ts ++ [⟨.header, []⟩])) inner.entries }
    | some _ => none) path.dropLast t

mutual

def finish : Table → List (String × Toml)
  | ⟨_, entries⟩ => finishEntries entries

def finishEntries : List (String × Node) → List (String × Toml)
  | [] => []
  | (k, .value v) :: rest => (k, v) :: finishEntries rest
  | (k, .table t) :: rest => (k, .table t.finish) :: finishEntries rest
  | (k, .tables ts) :: rest => (k, .array (finishTables ts)) :: finishEntries rest

def finishTables : List Table → List Toml
  | [] => []
  | t :: ts => .table t.finish :: finishTables ts

end

end Table

/-! ## Values -/

def bool : Parser Toml :=
  or (do text "true"; return .bool true) (do text "false"; return .bool false)

/-- Items with commas between them; a comma may follow the last one. -/
def arrayOf (value : Parser Toml) : Parser Toml := do
  text "["
  let items ← sepBy (do gaps; let v ← value; gaps; return v) (text ",")
  if !items.isEmpty then
    let _ ← optional (text ",")
  gaps
  text "]"
  return .array items

/-- Settings with commas between them, on one line. -/
def inlineTable (value : Parser Toml) : Parser Toml := do
  text "\x7b"
  spaces
  let settings ← sepBy (do
    let k ← key
    text "="
    spaces
    let v ← value
    spaces
    return (k, v)) (text ",")
  spaces
  text "\x7d"
  match settings.foldlM (fun t (k, v) => Table.set k v t) ⟨.header, []⟩ with
  | some t => return .table t.finish
  | none => refuse

def scalar : Parser Toml := oneOf [
  do return .string (← string),
  bool,
  do return .datetime (← DatetimeReader.datetime DatetimeReader.bare),
  decimalFloat,
  specialFloat,
  integer]

/-- A value with at most `levels` arrays and tables in each other. -/
def value : (levels : Nat) → Parser Toml
  | 0 => scalar
  | levels + 1 => oneOf [arrayOf (value levels), inlineTable (value levels), scalar]

/-! ## Files -/

inductive Line where
  | blank
  | setting (path : List String) (v : Toml)
  | header (path : List String)
  | item (path : List String)

def line : Parser Line := do
  spaces
  oneOf [
    do text "[["; let path ← key; text "]]"; lineEnd; return .item path,
    do text "["; let path ← key; text "]"; lineEnd; return .header path,
    do
      let path ← key
      text "="
      spaces
      let v ← value deepest
      lineEnd
      return .setting path v,
    do lineEnd; return .blank]

/-- What the lines of a file set, when the headers so far have opened the table at `current`. -/
def apply (current : List String) : List Line → Table → Option Table
  | [], t => some t
  | .blank :: rest, t => apply current rest t
  | .setting path v :: rest, t => do
    let t ← Table.update false (Table.set path v) current t
    apply current rest t
  | .header path :: rest, t => do apply path rest (← t.openTable path)
  | .item path :: rest, t => do apply path rest (← t.openItem path)

/-- All lines, in at most `steps` steps. -/
def lines : (steps : Nat) → List Char → Option (List Line)
  | 0, _ => none
  | _, [] => some []
  | steps + 1, s =>
    match line s with
    | .done l rest => (lines steps rest).map (l :: ·)
    | _ => none

def read (text : String) : Option (List (String × Toml)) :=
  let cs := match text.toList with
    | '\ufeff' :: rest => rest
    | cs => cs
  match lines (cs.length + 1) cs with
  | none => none
  | some ls => (apply [] ls ⟨.header, []⟩).map Table.finish

end HaxeMacro.TomlReader
