import HaxeMacro.Parser.Token

/-! # The grammar of fragments

Types, metadata and expressions. Each production takes the parsers of its parts, so that only two
knots are recursive: `typeAtom` for types, `operand` with `binary` for expressions. Both count down
a number of steps; `complexType` and `expression` give as many as the text can need.
-/

namespace HaxeMacro.Grammar

open HaxeMacro.Parser Token

/-- The text that is read, by its size in bytes, and the place where it stands. -/
structure Source where
  file : UInt32
  base : UInt32
  size : Nat

def byteCount (s : List Char) : Nat := s.foldr (fun c n => c.utf8Size + n) 0

def Source.of (text : List Char) (pos : Position) : Source := ⟨pos.file, pos.min, byteCount text⟩

namespace Source

/-- The offset at which `rest` is what is left of the text; it never passes the largest offset. -/
def offset (src : Source) (rest : List Char) : UInt32 :=
  Position.clamp (src.base.toNat + (src.size - byteCount rest))

/-- From where `start` is left to where `stop` is left. -/
def span (src : Source) (start stop : List Char) : Position :=
  ⟨src.file, src.offset start, src.offset stop⟩

end Source

/-! ## Types -/

def typeHint (type : Parser ComplexType) : Parser ComplexType := do
  symbol ":"
  type

/-- One field of an anonymous structure; `?name` marks it with `@:optional`. -/
def anonymousField (src : Source) (type : Parser ComplexType) : Parser Field := do
  blanks
  let start ← here
  let optional ← present (text "?")
  let name ← anyIdentifier
  let t ← typeHint type
  let pos := src.span start (← here)
  return {
    name, pos, doc := none, access := [], kind := .var (some t) none
    annotations := if optional then [⟨":optional", [], pos⟩] else [] }

/-- `{ field, ... }`, where a comma may follow the last field. -/
def anonymous (src : Source) (type : Parser ComplexType) : Parser (List Field) := do
  symbol "\x7b"
  let fields ← sepBy (anonymousField src type) (symbol ",")
  let _ ← optional (symbol ",")
  symbol "\x7d"
  return fields

/-- The first capitalized part is the type or its module; without one, the last part is the type. -/
def typeIndex (parts : List String) : Nat :=
  let capitalized (part : String) : Bool := part.toList.head?.any Text.isAsciiUpper
  (parts.findIdx? capitalized).getD (parts.length - 1)

def typeArgs (type : Parser ComplexType) : Parser (List TypeArg) := do
  symbol "<"
  let args ← sepBy1 type (symbol ",")
  symbol ">"
  return args.map TypeArg.type

/-- `pack.Name<Args>` or `pack.Module.Sub<Args>`. -/
def typePath (type : Parser ComplexType) : Parser TypePath := do
  let start ← here
  let parts ← sepBy1 anyIdentifier (text ".")
  match parts.drop (typeIndex parts) with
  | [] | _ :: _ :: _ :: _ => fun _ => .refused start
  | name :: sub => do
    let args ← optional (typeArgs type)
    return { pack := parts.take (typeIndex parts), name, args := args.getD [], sub := sub.head? }

/-- `A -> B -> C` from the parser of `A`, `B` and `C`. -/
def arrows (atom : Parser ComplexType) : Parser ComplexType := do
  let first ← atom
  let others ← many (do symbol "->"; atom)
  return match others.getLast? with
    | none => first
    | some ret => .function (first :: others.dropLast) ret

def atomOf (src : Source) (atom : Parser ComplexType) : Parser ComplexType := oneOf [
  do symbol "?"; return .optional (← atom),
  do symbol "("; let t ← arrows atom; symbol ")"; return .paren t,
  do return .anonymous (← anonymous src (arrows atom)),
  do return .path (← typePath (arrows atom))]

/-- A type without an arrow of its own, in at most `steps` steps. -/
def typeAtom (src : Source) : (steps : Nat) → Parser ComplexType
  | 0 => fun _ => .exhausted
  | steps + 1 => atomOf src (typeAtom src steps)

def complexType (src : Source) : Parser ComplexType := fun s =>
  arrows (typeAtom src (s.length + 1)) s

/-! ## Lists of expressions -/

def argumentsTail (expr : Parser Expr) : Parser (List Expr) := do
  let args ← sepBy expr (symbol ",")
  symbol ")"
  return args

def arguments (expr : Parser Expr) : Parser (List Expr) := do
  symbol "("
  argumentsTail expr

/-- `@name` or `@:name`, with arguments only if the parenthesis follows at once. -/
def metadata (src : Source) (expr : Parser Expr) : Parser Metadata := do
  blanks
  let start ← here
  text "@"
  let colon ← present (text ":")
  let word ← name
  let args ← optional do
    text "("
    argumentsTail expr
  return {
    name := if colon then ":" ++ word else word
    args := args.getD []
    pos := src.span start (← here) }

/-! ## Expressions that start with a keyword -/

def varDecl (src : Source) (expr : Parser Expr) (isFinal isStatic : Bool) : Parser Var := do
  let name ← identifier
  let type ← optional (typeHint (complexType src))
  let init ← optional do
    symbol "="
    lacks (char fun c => c == '=' || c == '>')
    expr
  return { name, type, init, isFinal, isStatic, annotations := [] }

def varWord : Parser Bool :=
  or (do keyword "var"; return false) (do keyword "final"; return true)

def varExpr (src : Source) (expr : Parser Expr) : Parser ExprKind := do
  let isStatic ← present (keyword "static")
  let isFinal ← varWord
  return .vars (← sepBy1 (varDecl src expr isFinal isStatic) (symbol ","))

def param (src : Source) (expr : Parser Expr) : Parser Param := do
  let optionalMark ← present (symbol "?")
  let name ← identifier
  let type ← optional (typeHint (complexType src))
  let default ← optional do
    symbol "="
    expr
  return { name, optional := optionalMark, type, default, annotations := [] }

def functionExpr (src : Source) (expr : Parser Expr) : Parser ExprKind := do
  keyword "function"
  let name ← optional identifier
  symbol "("
  let params ← sepBy (param src expr) (symbol ",")
  symbol ")"
  let ret ← optional (typeHint (complexType src))
  let body ← expr
  let kind := match name with
    | some name => .named name
    | none => .anonymous
  return .function kind { params, ret, body := some body, typeParams := [] }

def condition (expr : Parser Expr) : Parser Expr := do
  symbol "("
  let e ← expr
  symbol ")"
  return e

def ifExpr (expr : Parser Expr) : Parser ExprKind := do
  keyword "if"
  let test ← condition expr
  let yes ← expr
  let no ← optional do
    let _ ← optional (symbol ";")
    keyword "else"
    expr
  return .cond test yes no

def whileExpr (expr : Parser Expr) : Parser ExprKind := do
  keyword "while"
  let test ← condition expr
  let body ← expr
  return .loop test body true

def doWhileExpr (expr : Parser Expr) : Parser ExprKind := do
  keyword "do"
  let body ← expr
  let _ ← optional (symbol ";")
  keyword "while"
  let test ← condition expr
  return .loop test body false

/-- The head of a `for` is kept as `name in range`. -/
def forExpr (src : Source) (expr : Parser Expr) : Parser ExprKind := do
  keyword "for"
  symbol "("
  blanks
  let start ← here
  let name ← identifier
  let var := Expr.ident name (src.span start (← here))
  keyword "in"
  let range ← expr
  symbol ")"
  let body ← expr
  return .forIn ⟨.binary .isIn var range, var.pos.union range.pos⟩ body

def newExpr (src : Source) (expr : Parser Expr) : Parser ExprKind := do
  keyword "new"
  blanks
  let path ← typePath (complexType src)
  let args ← arguments expr
  return .new path args

/-- `cast(e, T)`, or `cast e` with an operand that binds tighter than binary operators. -/
def castExpr (src : Source) (expr operand : Parser Expr) : Parser ExprKind := do
  keyword "cast"
  let checked ← optional do
    symbol "("
    let e ← expr
    symbol ","
    blanks
    let t ← complexType src
    symbol ")"
    return ExprKind.cast e (some t)
  match checked with
  | some kind => return kind
  | none => return .cast (← operand) none

def keywordExpr (src : Source) (expr operand : Parser Expr) : Parser ExprKind := oneOf [
  varExpr src expr,
  functionExpr src expr,
  ifExpr expr,
  whileExpr expr,
  doWhileExpr expr,
  forExpr src expr,
  newExpr src expr,
  castExpr src expr operand,
  do keyword "return"; return .ret (← optional expr),
  do keyword "throw"; return .throw (← expr),
  do keyword "untyped"; return .untyped (← expr),
  do keyword "break"; return .brk,
  do keyword "continue"; return .cont]

/-! ## Other primary expressions -/

def metaExpr (src : Source) (expr : Parser Expr) : Parser ExprKind := do
  let entry ← metadata src expr
  let inner ← expr
  return .annotated entry inner

def parenExpr (src : Source) (expr : Parser Expr) : Parser ExprKind := do
  symbol "("
  let inner ← expr
  let type ← optional (typeHint (complexType src))
  symbol ")"
  return match type with
    | some t => .checkType inner t
    | none => .paren inner

def arrayExpr (expr : Parser Expr) : Parser ExprKind := do
  symbol "["
  let items ← sepBy expr (symbol ",")
  let _ ← optional (symbol ",")
  symbol "]"
  return .array items

def objectField (expr : Parser Expr) : Parser ObjectField := do
  blanks
  let (name, quoted) ← or (do return (← anyIdentifier, false))
    (do return ((← stringLiteral).1, true))
  symbol ":"
  let value ← expr
  return { name, value, quoted }

def objectTail (expr : Parser Expr) : Parser ExprKind := do
  let fields ← sepBy1 (objectField expr) (symbol ",")
  let _ ← optional (symbol ",")
  symbol "\x7d"
  return .object fields

/-- One statement of a block; a semicolon alone is none. -/
def statement (expr : Parser Expr) : Parser (Option Expr) :=
  or (do let e ← expr; let _ ← optional (symbol ";"); return some e)
    (do symbol ";"; return none)

def blockTail (expr : Parser Expr) : Parser ExprKind := do
  let statements ← many (statement expr)
  symbol "\x7d"
  return .block (statements.filterMap id)

/-- Braces hold an object literal if they can, and else statements. -/
def braces (expr : Parser Expr) : Parser ExprKind := do
  symbol "\x7b"
  or (objectTail expr) (blockTail expr)

def constant : Parser ExprKind := oneOf [
  do return .const (← number),
  do let (s, quotes) ← stringLiteral; return .const (.string s quotes),
  do return .const (← regexpLiteral),
  do return .const (.ident (← identifier))]

def primary (src : Source) (expr operand : Parser Expr) : Parser Expr := do
  blanks
  let start ← here
  let kind ← oneOf [
    keywordExpr src expr operand,
    metaExpr src expr,
    parenExpr src expr,
    arrayExpr expr,
    braces expr,
    constant]
  return ⟨kind, src.span start (← here)⟩

/-! ## Operators -/

/-- What may follow an expression directly: a field, a call, an index, `++` or `--`. -/
def suffix (expr : Parser Expr) (e : Expr) : Parser ExprKind := oneOf [
  do symbol "."; return .field e (← anyIdentifier),
  do return .call e (← arguments expr),
  do symbol "["; let i ← expr; symbol "]"; return .index e i,
  do return .unary (← trailingOp) true e]

def postfixed (src : Source) (expr operand : Parser Expr) : Parser Expr := do
  blanks
  let start ← here
  let first ← primary src expr operand
  grow (fun e => do
    match ← optional (suffix expr e) with
    | none => return none
    | some kind => return some ⟨kind, src.span start (← here)⟩) first

/-- An operator before its operand; a minus before a number becomes part of the number. -/
def applyLeading (op : UnaryOp) (operand : Expr) : ExprKind :=
  match op, operand.kind with
  | .neg, .const (.int text) => .const (.int ("-" ++ text))
  | .neg, .const (.float text) => .const (.float ("-" ++ text))
  | op, _ => .unary op false operand

/-- What follows the question mark of a ternary. -/
def ternaryTail (binary : Nat → Parser Expr) (test : Expr) : Parser Expr := do
  let yes ← binary 0
  symbol ":"
  let no ← binary ternaryLevel
  return ⟨.ternary test yes no, test.pos.union no.pos⟩

def rightLevel (op : BinaryOp) : Nat := if op.groupsRight then op.level else op.level + 1

/-- A binary operator of level `least` or higher and its right operand, if they follow `left`. -/
def operatorTail (binary : Nat → Parser Expr) (least : Nat) (left : Expr) :
    Parser (Option Expr) := do
  match ← optional binaryOp with
  | none => return none
  | some op =>
    if op.level < least then return none
    else do
      let right ← binary (rightLevel op)
      return some ⟨.binary op left right, left.pos.union right.pos⟩

/-- One step of growing `left` by operators of level `least` or higher. -/
def binaryStep (binary : Nat → Parser Expr) (least : Nat) (left : Expr) :
    Parser (Option Expr) := do
  let asks ← if least ≤ ternaryLevel then present ternaryMark else pure false
  if asks then do
    return some (← ternaryTail binary left)
  else operatorTail binary least left

def leading (src : Source) (expr tight : Parser Expr) : Parser Expr := do
  blanks
  let start ← here
  match ← optional leadingOp with
  | some op =>
    let inner ← tight
    return ⟨applyLeading op inner, src.span start (← here)⟩
  | none => postfixed src expr tight

/-- An expression with binary operators of level `least` or higher. -/
def climb (tight : Parser Expr) (binary : Nat → Parser Expr) (least : Nat) : Parser Expr := do
  let first ← tight
  grow (binaryStep binary least) first

mutual

def operand (src : Source) : (steps : Nat) → Parser Expr
  | 0 => fun _ => .exhausted
  | steps + 1 => leading src (binary src steps 0) (operand src steps)

/-- An expression with binary operators of level `least` or higher, in at most `steps` steps. -/
def binary (src : Source) : (steps : Nat) → (least : Nat) → Parser Expr
  | 0, _ => fun _ => .exhausted
  | steps + 1, least => climb (operand src steps) (binary src steps) least

end

/-- As many steps as an expression can need that is read from `s`. -/
def stepsFor (s : List Char) : Nat := 2 * s.length + 2

def expression (src : Source) : Parser Expr := fun s => binary src (stepsFor s) 0 s

def metadataEntry (src : Source) : Parser Metadata := fun s =>
  metadata src (binary src (stepsFor s) 0) s

end HaxeMacro.Grammar
