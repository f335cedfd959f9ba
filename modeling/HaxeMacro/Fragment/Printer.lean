import HaxeMacro.Fragment.Basic

/-! # Fragments as source text

The printer writes what a fragment holds and adds no parentheses. Types of parameters, metadata of
variables and parameters, and the initial values of structure fields are not written.
-/

namespace HaxeMacro

/-! ## Pieces -/

def chars (s : String) : List Char := s.toList

def joinWith (separator : String) : List (List Char) → List Char
  | [] => []
  | [s] => s
  | s :: rest => s ++ chars separator ++ joinWith separator rest

def escapeDouble : Char → List Char
  | '"' => ['\\', '"']
  | '\\' => ['\\', '\\']
  | '\n' => ['\\', 'n']
  | '\t' => ['\\', 't']
  | '\r' => ['\\', 'r']
  | c => [c]

def escapeSingle : Char → List Char
  | '\'' => ['\\', '\'']
  | c => [c]

def quoteDouble (s : String) : List Char := '"' :: (chars s).flatMap escapeDouble ++ ['"']

def quoteSingle (s : String) : List Char := '\'' :: (chars s).flatMap escapeSingle ++ ['\'']

def Constant.print : Constant → List Char
  | .int text | .float text | .ident text => chars text
  | .string text .double => quoteDouble text
  | .string text .single => quoteSingle text
  | .regexp pattern flags => chars "~/" ++ chars pattern ++ '/' :: chars flags

/-- Whether an anonymous field is marked as one that may be missing. -/
def Field.isOptional (f : Field) : Bool := f.annotations.any fun m => m.name == ":optional"

/-- The words before the first variable of a declaration. -/
def Var.words (v : Var) : List Char :=
  (if v.isStatic then chars "static " else []) ++
    (if v.isFinal then chars "final " else chars "var ")

/-! ## The printer -/

mutual

def Expr.print : Expr → List Char
  | ⟨kind, _⟩ => kind.print

def ExprKind.print : ExprKind → List Char
  | .const c => c.print
  | .index e i => e.print ++ '[' :: i.print ++ [']']
  | .binary op l r => l.print ++ ' ' :: chars op.symbol ++ ' ' :: r.print
  | .field e name => e.print ++ '.' :: chars name
  | .paren e => '(' :: e.print ++ [')']
  | .object fields => chars "\x7b " ++ joinWith ", " (printObjectFields fields) ++ chars " \x7d"
  | .array items => '[' :: joinWith ", " (printExprs items) ++ [']']
  | .call e args => e.print ++ '(' :: joinWith ", " (printExprs args) ++ [')']
  | .new path args =>
    chars "new " ++ path.print ++ '(' :: joinWith ", " (printExprs args) ++ [')']
  | .unary op true e => e.print ++ chars op.symbol
  | .unary op false e => chars op.symbol ++ e.print
  | .vars [] => []
  | .vars (v :: vs) => v.words ++ joinWith ", " (printVars (v :: vs))
  | .function (.named name) func => chars "function " ++ chars name ++ func.print
  | .function .anonymous func => chars "function" ++ func.print
  | .function .arrow func => chars "function" ++ func.print
  | .block items => '\x7b' :: printStatements items ++ chars " \x7d"
  | .forIn head body => chars "for (" ++ head.print ++ chars ") " ++ body.print
  | .cond test yes none => chars "if (" ++ test.print ++ chars ") " ++ yes.print
  | .cond test yes (some no) =>
    chars "if (" ++ test.print ++ chars ") " ++ yes.print ++ chars " else " ++ no.print
  | .loop test body true => chars "while (" ++ test.print ++ chars ") " ++ body.print
  | .loop test body false => chars "do " ++ body.print ++ chars " while (" ++ test.print ++ [')']
  | .ret none => chars "return"
  | .ret (some e) => chars "return " ++ e.print
  | .brk => chars "break"
  | .cont => chars "continue"
  | .untyped e => chars "untyped " ++ e.print
  | .throw e => chars "throw " ++ e.print
  | .cast e none => chars "cast " ++ e.print
  | .cast e (some t) => chars "cast(" ++ e.print ++ chars ", " ++ t.print ++ [')']
  | .ternary c t e => c.print ++ chars " ? " ++ t.print ++ chars " : " ++ e.print
  | .checkType e t => '(' :: e.print ++ chars " : " ++ t.print ++ [')']
  | .annotated m e => m.print ++ ' ' :: e.print

def printExprs : List Expr → List (List Char)
  | [] => []
  | e :: es => e.print :: printExprs es

/-- The statements of a block, each with its semicolon. -/
def printStatements : List Expr → List Char
  | [] => []
  | e :: es => ' ' :: e.print ++ ';' :: printStatements es

def printObjectFields : List ObjectField → List (List Char)
  | [] => []
  | ⟨name, value, quoted⟩ :: fields =>
    ((if quoted then quoteDouble name else chars name) ++ chars " : " ++ value.print)
      :: printObjectFields fields

def printVars : List Var → List (List Char)
  | [] => []
  | ⟨name, type, init, _, _, _⟩ :: vs =>
    (chars name ++ printHint type ++ printDefault init) :: printVars vs

/-- `:T`, if there is a type. -/
def printHint : Option ComplexType → List Char
  | none => []
  | some t => ':' :: t.print

/-- ` = e`, if there is a value. -/
def printDefault : Option Expr → List Char
  | none => []
  | some e => chars " = " ++ e.print

/-- ` e`, if there is a body. -/
def printBody : Option Expr → List Char
  | none => []
  | some e => ' ' :: e.print

/-- A function from its parameters on. -/
def FunctionDef.print : FunctionDef → List Char
  | ⟨params, ret, body, _⟩ =>
    '(' :: joinWith ", " (printParams params) ++ ')' :: printHint ret ++ printBody body

def printParams : List Param → List (List Char)
  | [] => []
  | ⟨name, optional, type, default, _⟩ :: ps =>
    ((if optional then ['?'] else []) ++ chars name ++ printHint type ++ printDefault default)
      :: printParams ps

def TypePath.print : TypePath → List Char
  | ⟨pack, name, args, sub⟩ =>
    pack.flatMap (fun p => chars p ++ ['.']) ++ chars name
      ++ (match sub with
        | none => []
        | some sub => '.' :: chars sub)
      ++ (match args with
        | [] => []
        | a :: as => '<' :: joinWith ", " (a.print :: printTypeArgs as) ++ ['>'])

def TypeArg.print : TypeArg → List Char
  | .type t => t.print
  | .expr e => e.print

def printTypeArgs : List TypeArg → List (List Char)
  | [] => []
  | a :: as => a.print :: printTypeArgs as

def ComplexType.print : ComplexType → List Char
  | .path p => p.print
  | .function args ret => printArrows args ++ ret.print
  | .anonymous fields => chars "\x7b " ++ joinWith ", " (printFields fields) ++ chars " \x7d"
  | .paren t => '(' :: t.print ++ [')']
  | .optional t => '?' :: t.print
  | .named name t => chars name ++ chars " : " ++ t.print

/-- The argument types of a function type, each with its arrow. -/
def printArrows : List ComplexType → List Char
  | [] => []
  | t :: ts => t.print ++ chars " -> " ++ printArrows ts

def printFields : List Field → List (List Char)
  | [] => []
  | ⟨name, doc, access, kind, pos, annotations⟩ :: fs =>
    ((if Field.isOptional ⟨name, doc, access, kind, pos, annotations⟩ then ['?'] else [])
      ++ chars name ++ kind.printType) :: printFields fs

/-- ` : T` for a variable or property with a type. -/
def FieldKind.printType : FieldKind → List Char
  | .var (some t) _ => chars " : " ++ t.print
  | .property _ _ (some t) _ => chars " : " ++ t.print
  | .var none _ => []
  | .property _ _ none _ => []
  | .method _ => []

def Metadata.print : Metadata → List Char
  | ⟨name, args, _⟩ =>
    '@' :: chars name ++ (match args with
      | [] => []
      | a :: as => '(' :: joinWith ", " (a.print :: printExprs as) ++ [')'])

end

def Expr.text (e : Expr) : String := String.ofList e.print

def ComplexType.text (t : ComplexType) : String := String.ofList t.print

def Metadata.text (m : Metadata) : String := String.ofList m.print

def TypePath.text (p : TypePath) : String := String.ofList p.print

def Constant.text (c : Constant) : String := String.ofList c.print

end HaxeMacro
