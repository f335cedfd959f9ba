import HaxeMacro.Decimal.Read
import HaxeMacro.Parser.Token

/-! # Reading JSON

JSON texts with nothing before or after them but blanks. A key may stand more than once. A string
that names half of a surrogate pair is well formed, but it is no text.
-/

namespace HaxeMacro

inductive Json where
  | null
  | bool (b : Bool)
  /-- A number as it is written. -/
  | number (text : String)
  /-- A string, if it is a text. -/
  | string (s : Option String)
  | array (items : List Json)
  | object (entries : List (Option String × Json))

namespace JsonReader

open HaxeMacro.Parser Token Text

def spaces : Parser Unit := fun s =>
  .done () (s.dropWhile fun c => c == ' ' || c == '\t' || c == '\n' || c == '\r')

/-! ## Strings -/

def word : Parser Nat
  | a :: b :: c :: d :: rest =>
    if [a, b, c, d].all isHexDigit then .done (Decimal.digitsValue 16 [a, b, c, d]) rest
    else .refused (a :: b :: c :: d :: rest)
  | s => .refused s

/-- A character by its number in base sixteen; those beyond four digits are written as a pair.
Half of a pair is no character. -/
def numbered : Parser (Option Char) := do
  text "u"
  let n ← word
  if 0xD800 ≤ n ∧ n < 0xDC00 then
    optional do
      text "\\u"
      let m ← word
      if 0xDC00 ≤ m ∧ m < 0xE000 then
        return Char.ofNat (0x10000 + (n - 0xD800) * 0x400 + (m - 0xDC00))
      else refuse
  else if 0xDC00 ≤ n ∧ n < 0xE000 then return none
  else return some (Char.ofNat n)

/-- The character after a backslash. -/
def escape : Parser (Option Char)
  | '"' :: rest => .done (some '"') rest
  | '\\' :: rest => .done (some '\\') rest
  | '/' :: rest => .done (some '/') rest
  | 'b' :: rest => .done (some '\x08') rest
  | 'f' :: rest => .done (some '\x0c') rest
  | 'n' :: rest => .done (some '\n') rest
  | 'r' :: rest => .done (some '\r') rest
  | 't' :: rest => .done (some '\t') rest
  | s => numbered s

def string : Parser (Option String) := do
  text "\""
  let cs ← many (or
    (do let _ ← char (· == '\\'); escape)
    (do return some (← char fun c => 32 ≤ c.toNat && c != '"' && c != '\\')))
  text "\""
  return (cs.mapM id).map String.ofList

/-! ## Numbers -/

def whole : Parser (List Char) := fun s =>
  match span1 isDigit s with
  | .done ('0' :: _ :: _) _ => .refused s
  | reply => reply

def number : Parser Json := do
  let sign ← optional (char (· == '-'))
  let digits ← whole
  let fraction ← or
    (do text "."; return '.' :: (← span1 isDigit))
    (do lacks (text "."); return [])
  let power ← or exponent (do lacks (char fun c => c == 'e' || c == 'E'); return [])
  return .number (String.ofList (sign.toList ++ digits ++ fraction ++ power))

/-! ## Values -/

/-- A value with blanks around it, in at most `steps` levels. -/
def value : (steps : Nat) → Parser Json
  | 0 => fun _ => .exhausted
  | steps + 1 => do
    spaces
    let v ← oneOf [
      do text "null"; return .null,
      do text "true"; return .bool true,
      do text "false"; return .bool false,
      number,
      do return .string (← string),
      do
        text "["
        spaces
        let items ← sepBy (value steps) (text ",")
        text "]"
        return .array items,
      do
        text "\x7b"
        spaces
        let entries ← sepBy (do
          spaces
          let key ← string
          spaces
          text ":"
          return (key, ← value steps)) (text ",")
        text "\x7d"
        return .object entries]
    spaces
    return v

end JsonReader

def Json.read (text : String) : Option Json :=
  match JsonReader.value (text.length + 1) text.toList with
  | .done v [] => some v
  | _ => none

end HaxeMacro
