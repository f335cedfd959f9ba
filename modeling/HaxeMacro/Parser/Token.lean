import HaxeMacro.Fragment.Basic
import HaxeMacro.Parser.Reply
import HaxeMacro.Text.Character

/-! # Tokens

Blanks and comments, symbols, keywords, identifiers, numbers, string and regular expression
literals. Every token but a literal may have blanks before it.
-/

namespace HaxeMacro.Token

open HaxeMacro.Parser Text

/-! ## Blanks -/

inductive Inside where
  | nothing
  | line
  | block (start : List Char)

/-- Space, tab and line ends; a block comment that is never closed is no blank. -/
def skip : Inside → List Char → List Char
  | .nothing, [] => []
  | .nothing, ' ' :: r => skip .nothing r
  | .nothing, '\t' :: r => skip .nothing r
  | .nothing, '\r' :: r => skip .nothing r
  | .nothing, '\n' :: r => skip .nothing r
  | .nothing, '/' :: '/' :: r => skip .line r
  | .nothing, '/' :: '*' :: r => skip (.block ('/' :: '*' :: r)) r
  | .nothing, c :: r => c :: r
  | .line, [] => []
  | .line, '\n' :: r => skip .nothing r
  | .line, _ :: r => skip .line r
  | .block start, [] => start
  | .block _, '*' :: '/' :: r => skip .nothing r
  | .block start, _ :: r => skip (.block start) r

def skipBlanks (s : List Char) : List Char := skip .nothing s

def blanks : Parser Unit := fun s => .done () (skipBlanks s)

/-! ## Fixed texts -/

def dropText? : (word : List Char) → List Char → Option (List Char)
  | [], s => some s
  | _ :: _, [] => none
  | w :: ws, c :: s => if w = c then dropText? ws s else none

def text (word : String) : Parser Unit := fun s =>
  match dropText? word.toList s with
  | some rest => .done () rest
  | none => .refused s

def symbol (word : String) : Parser Unit := do
  blanks
  text word

def char (p : Char → Bool) : Parser Char
  | c :: rest => if p c then .done c rest else .refused (c :: rest)
  | [] => .refused []

/-- `word` after blanks, where no longer word stands. -/
def keyword (word : String) : Parser Unit := do
  symbol word
  lacks (char continuesWord)

/-! ## Identifiers -/

def reserved : List String := [
  "abstract", "break", "case", "cast", "catch", "class", "continue", "default", "do", "dynamic",
  "else", "enum", "extends", "extern", "final", "for", "function", "if", "implements", "import",
  "in", "inline", "interface", "macro", "new", "override", "package", "private", "public",
  "return", "static", "switch", "throw", "try", "typedef", "untyped", "using", "var", "while"]

def name : Parser String
  | c :: rest =>
    if startsName c then
      .done (String.ofList (c :: rest.takeWhile continuesName)) (rest.dropWhile continuesName)
    else .refused (c :: rest)
  | [] => .refused []

def anyIdentifier : Parser String := do
  blanks
  name

def identifier : Parser String := do
  blanks
  let start ← here
  let word ← name
  if reserved.contains word then fun _ => .refused start else return word

/-! ## Numbers -/

def span1 (p : Char → Bool) : Parser (List Char) := fun s =>
  match s.takeWhile p with
  | [] => .refused s
  | c :: cs => .done (c :: cs) (s.dropWhile p)

/-- The power of ten of a number: `e` or `E`, an optional sign, digits. -/
def exponent : Parser (List Char) := do
  let e ← char fun c => c == 'e' || c == 'E'
  let sign ← optional (char fun c => c == '+' || c == '-')
  let digits ← span1 isDigit
  return e :: sign.toList ++ digits

def hexNumber : Parser Constant := do
  text "0x"
  let digits ← span1 isHexDigit
  return .int (String.ofList ('0' :: 'x' :: digits))

def pointNumber : Parser Constant := do
  let whole ← span1 isDigit
  text "."
  let fraction ← span1 isDigit
  let power ← optional exponent
  return .float (String.ofList (whole ++ '.' :: fraction ++ power.getD []))

def powerNumber : Parser Constant := do
  let whole ← span1 isDigit
  let power ← exponent
  return .float (String.ofList (whole ++ power))

def wholeNumber : Parser Constant := do
  let digits ← span1 isDigit
  return .int (String.ofList digits)

/-- A number. The sign belongs to the expression around it. -/
def number : Parser Constant := oneOf [hexNumber, pointNumber, powerNumber, wholeNumber]

/-! ## Strings and regular expressions -/

def unescape : Char → Char
  | 'n' => '\n'
  | 't' => '\t'
  | 'r' => '\r'
  | '0' => '\x00'
  | c => c

/-- The characters up to the closing quote, and what follows it. -/
def closeString (quote : Char) : List Char → Option (List Char × List Char)
  | [] => none
  | c :: rest =>
    if c = quote then some ([], rest)
    else if c = '\\' then
      match rest with
      | [] => none
      | e :: rest => (closeString quote rest).map fun (cs, rest) => (unescape e :: cs, rest)
    else (closeString quote rest).map fun (cs, rest) => (c :: cs, rest)

def stringFrom (start : List Char) (quote : Char) (quotes : Quotes) : Parser (String × Quotes) :=
  fun s =>
    match closeString quote s with
    | some (cs, rest) => .done (String.ofList cs, quotes) rest
    | none => .refused start

def stringLiteral : Parser (String × Quotes)
  | '"' :: rest => stringFrom ('"' :: rest) '"' .double rest
  | '\'' :: rest => stringFrom ('\'' :: rest) '\'' .single rest
  | s => .refused s

def closePattern : List Char → Option (List Char × List Char)
  | [] => none
  | '/' :: rest => some ([], rest)
  | '\n' :: _ => none
  | '\\' :: e :: rest => (closePattern rest).map fun (cs, rest) => ('\\' :: e :: cs, rest)
  | c :: rest => (closePattern rest).map fun (cs, rest) => (c :: cs, rest)

def regexpLiteral : Parser Constant
  | '~' :: '/' :: s =>
    match closePattern s with
    | some (pattern, rest) =>
      .done (.regexp (String.ofList pattern) (String.ofList (rest.takeWhile isAsciiLetter)))
        (rest.dropWhile isAsciiLetter)
    | none => .refused ('~' :: '/' :: s)
  | s => .refused s

/-! ## Operators -/

/-- The binary operators in the order in which their texts are tried. -/
def binarySymbols : List (String × BinaryOp) := [
  (">>>=", .assignOp .ushr), ("<<=", .assignOp .shl), (">>=", .assignOp .shr),
  ("??=", .assignOp .nullCoal), (">>>", .ushr), ("...", .interval), ("??", .nullCoal),
  ("&&", .boolAnd), ("||", .boolOr), ("==", .eq), ("!=", .notEq), (">=", .gte), ("<=", .lte),
  ("<<", .shl), (">>", .shr), ("=>", .arrow),
  ("+=", .assignOp .add), ("-=", .assignOp .sub), ("*=", .assignOp .mult), ("/=", .assignOp .div),
  ("%=", .assignOp .mod), ("&=", .assignOp .and), ("|=", .assignOp .or), ("^=", .assignOp .xor),
  ("+", .add), ("-", .sub), ("*", .mult), ("/", .div), ("%", .mod), (">", .gt), ("<", .lt),
  ("=", .assign), ("&", .and), ("|", .or), ("^", .xor)]

/-- The text of one binary operator; a minus before `>` belongs to an arrow. -/
def binarySymbol (word : String) (op : BinaryOp) : Parser BinaryOp := do
  text word
  if op = .sub then lacks (text ">")
  return op

/-- A binary operator after blanks. The operator `in` is read only in the head of a `for`. -/
def binaryOp : Parser BinaryOp := do
  blanks
  oneOf (binarySymbols.map fun (word, op) => binarySymbol word op)

/-- The question mark of `c ? a : b`, which is neither `??` nor `?.`. -/
def ternaryMark : Parser Unit := do
  symbol "?"
  lacks (char fun c => c == '?' || c == '.')

def leadingOp : Parser UnaryOp := oneOf [
  do text "++"; return .increment,
  do text "--"; return .decrement,
  do text "..."; return .spread,
  do text "!"; return .not,
  do text "-"; return .neg,
  do text "~"; lacks (text "/"); return .negBits]

def trailingOp : Parser UnaryOp := do
  blanks
  oneOf [do text "++"; return .increment, do text "--"; return .decrement]

end HaxeMacro.Token
