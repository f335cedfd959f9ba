import HaxeMacro.Codec.Reading
import HaxeMacro.Program.Ty

/-! # Reading fragments from values

A reader checks every part of a value and reports all that does not fit. Macro code may leave out
what has a default: null stands for an empty list, for false, and for the usual choice of an enum.

The readers count levels: one of level `n` reads values that are nested at most `n` deep. The
readers at the end take as many levels as the value has.
-/

namespace HaxeMacro

/-! ## Depth -/

namespace Value

mutual

/-- How deep a value is nested. A composite value is deeper than null even if it has no parts. -/
def depth : Value → Nat
  | object fields => max 1 (depthOfFields fields) + 1
  | array items => max 1 (depthOfItems items) + 1
  | enum _ _ _ args => max 1 (depthOfItems args) + 1
  | _ => 1

def depthOfItems : List Value → Nat
  | [] => 0
  | v :: vs => max v.depth (depthOfItems vs)

def depthOfFields : List (String × Value) → Nat
  | [] => 0
  | (_, v) :: rest => max v.depth (depthOfFields rest)

end

end Value

abbrev Decoder (α : Type) := Value → Reading α

namespace Decode

open Reading

variable {α : Type}

/-! ## Pieces -/

/-- An object, whose fields `read` goes on with. -/
def object (expected : String) (read : Fields → Reading α) : Decoder α
  | .object fields => read fields
  | v => mismatch expected v.describe

/-- A value of an enum, whose constructor and arguments `read` goes on with. -/
def enumOf (type : String) (read : String → List Value → Reading α) : Decoder α
  | .enum t constructor index args =>
    if t = type then read constructor args
    else mismatch type (Value.enum t constructor index args).describe
  | v => mismatch type v.describe

/-- The enum has no such constructor. -/
def unknown (type constructor : String) : Reading α :=
  mismatch ("a " ++ type ++ " constructor") constructor

/-- A field of an object. -/
def field (fields : Fields) (name : String) (read : Decoder α) : Reading α :=
  (read (Fields.get fields name)).under (.field name)

/-- An argument of a constructor. -/
def arg (constructor : String) (args : List Value) (i : Nat) (read : Decoder α) : Reading α :=
  match args[i]? with
  | some v => (read v).under (.arg constructor i)
  | none => (mismatch "a value" "nothing").under (.arg constructor i)

/-- An argument of a constructor that reads as null when it is missing. -/
def lastArg (constructor : String) (args : List Value) (i : Nat) (read : Decoder α) : Reading α :=
  (read (args[i]?.getD .null)).under (.arg constructor i)

/-- Null, or what `read` reads. -/
def optional (read : Decoder α) : Decoder (Option α)
  | .null => ok none
  | v => (read v).map some

/-- Null for `default`, or what `read` reads. -/
def orDefault (default : α) (read : Decoder α) : Decoder α
  | .null => ok default
  | v => read v

/-- Items that stand at index `i` and after it. -/
def itemsFrom (read : Decoder α) : Nat → List Value → Reading (List α)
  | _, [] => ok []
  | i, v :: vs => List.cons <$> (read v).under (.item i) <*> itemsFrom read (i + 1) vs

def array (read : Decoder α) : Decoder (List α)
  | .array items => itemsFrom read 0 items
  | v => mismatch "Array" v.describe

/-- An array that may be left out. -/
def arrayOrNull (read : Decoder α) : Decoder (List α) := orDefault [] (array read)

def string : Decoder String
  | .string s => ok s
  | v => mismatch "String" v.describe

def bool : Decoder Bool
  | .bool b => ok b
  | v => mismatch "Bool" v.describe

/-- A truth value that is false when it is left out. -/
def flag : Decoder Bool := orDefault false bool

def int : Decoder Int64
  | .int i => ok i
  | v => mismatch "Int" v.describe

def strings : Decoder (List String) := array string

/-! ## Positions -/

/-- An integer that a position can hold. -/
def offset : Decoder UInt32
  | .int i =>
    if 0 ≤ i.toInt ∧ i.toInt < 4294967296 then ok (UInt32.ofNat i.toInt.toNat)
    else mismatch "Position offset" (wholeText i)
  | v => mismatch "Int" v.describe

/-- A file number; every negative one marks a null position. -/
def file : Decoder UInt32
  | .int i => if i.toInt < 0 then ok Position.noFile else offset (.int i)
  | v => mismatch "Int" v.describe

def position : Decoder Position := orDefault Position.null <| object "Position" fun fields =>
  Position.mk <$> field fields "file" file <*> field fields "min" offset <*>
    field fields "max" offset

/-! ## Choices without parts -/

def quotes : Decoder Quotes := orDefault .double <| enumOf "StringLiteralKind" fun c _ =>
  match c with
  | "DoubleQuotes" => ok .double
  | "SingleQuotes" => ok .single
  | c => unknown "StringLiteralKind" c

def constant : Decoder Constant := enumOf "Constant" fun c args =>
  match c with
  | "CInt" => Constant.int <$> arg c args 0 string
  | "CFloat" => Constant.float <$> arg c args 0 string
  | "CString" => Constant.string <$> arg c args 0 string <*> lastArg c args 1 quotes
  | "CIdent" => Constant.ident <$> arg c args 0 string
  | "CRegexp" => Constant.regexp <$> arg c args 0 string <*> arg c args 1 string
  | c => unknown "Constant" c

def unaryOp : Decoder UnaryOp := enumOf "Unop" fun c _ =>
  match c with
  | "OpIncrement" => ok .increment
  | "OpDecrement" => ok .decrement
  | "OpNot" => ok .not
  | "OpNeg" => ok .neg
  | "OpNegBits" => ok .negBits
  | "OpSpread" => ok .spread
  | c => unknown "Unop" c

def quoteStatus : Decoder Bool := orDefault false <| enumOf "QuoteStatus" fun c _ =>
  match c with
  | "Unquoted" => ok false
  | "Quoted" => ok true
  | c => unknown "QuoteStatus" c

def functionKind : Decoder FunctionKind := orDefault .anonymous <| enumOf "FunctionKind"
  fun c args =>
    match c with
    | "FAnonymous" => ok .anonymous
    | "FNamed" => FunctionKind.named <$> arg c args 0 string
    | "FArrow" => ok .arrow
    | c => unknown "FunctionKind" c

def access : Decoder Access := enumOf "Access" fun c _ =>
  match c with
  | "APublic" => ok .pub
  | "APrivate" => ok .priv
  | "AStatic" => ok .static
  | "AOverride" => ok .override
  | "ADynamic" => ok .dynamic
  | "AInline" => ok .inlined
  | "AMacro" => ok .macroCode
  | "AFinal" => ok .final
  | "AExtern" => ok .external
  | c => unknown "Access" c

/-- The operators without parts. -/
def plainOp? : String → Option BinaryOp
  | "OpAdd" => some .add
  | "OpMult" => some .mult
  | "OpDiv" => some .div
  | "OpSub" => some .sub
  | "OpAssign" => some .assign
  | "OpEq" => some .eq
  | "OpNotEq" => some .notEq
  | "OpGt" => some .gt
  | "OpGte" => some .gte
  | "OpLt" => some .lt
  | "OpLte" => some .lte
  | "OpAnd" => some .and
  | "OpOr" => some .or
  | "OpXor" => some .xor
  | "OpBoolAnd" => some .boolAnd
  | "OpBoolOr" => some .boolOr
  | "OpShl" => some .shl
  | "OpShr" => some .shr
  | "OpUShr" => some .ushr
  | "OpMod" => some .mod
  | "OpInterval" => some .interval
  | "OpArrow" => some .arrow
  | "OpIn" => some .isIn
  | "OpNullCoal" => some .nullCoal
  | _ => none

/-! ## Readers by level -/

/-- The value is nested deeper than the reader goes. -/
def tooDeep (expected : String) : Decoder α := fun v => mismatch expected v.describe

/-- A binary operator, at most `n` deep. -/
def binaryOp : (n : Nat) → Decoder BinaryOp
  | 0 => tooDeep "Binop"
  | n + 1 => enumOf "Binop" fun c args =>
    match plainOp? c with
    | some op => ok op
    | none =>
      if c = "OpAssignOp" then BinaryOp.assignOp <$> arg c args 0 (binaryOp n)
      else unknown "Binop" c

mutual

def expr : (n : Nat) → Decoder Expr
  | 0 => tooDeep "Expr"
  | n + 1 => object "Expr" fun fields =>
    Expr.mk <$> field fields "expr" (exprKind n) <*> field fields "pos" position

def exprKind : (n : Nat) → Decoder ExprKind
  | 0 => tooDeep "ExprDef"
  | n + 1 => enumOf "ExprDef" fun c args =>
    match c with
    | "EConst" => ExprKind.const <$> arg c args 0 constant
    | "EArray" => ExprKind.index <$> arg c args 0 (expr n) <*> arg c args 1 (expr n)
    | "EBinop" => ExprKind.binary <$> arg c args 0 (binaryOp n) <*> arg c args 1 (expr n) <*>
        arg c args 2 (expr n)
    | "EField" => ExprKind.field <$> arg c args 0 (expr n) <*> arg c args 1 string
    | "EParenthesis" => ExprKind.paren <$> arg c args 0 (expr n)
    | "EObjectDecl" => ExprKind.object <$> arg c args 0 (array (objectField n))
    | "EArrayDecl" => ExprKind.array <$> arg c args 0 (array (expr n))
    | "ECall" => ExprKind.call <$> arg c args 0 (expr n) <*> arg c args 1 (array (expr n))
    | "ENew" => ExprKind.new <$> arg c args 0 (typePath n) <*>
        arg c args 1 (array (expr n))
    | "EUnop" => ExprKind.unary <$> arg c args 0 unaryOp <*> arg c args 1 bool <*>
        arg c args 2 (expr n)
    | "EVars" => ExprKind.vars <$> arg c args 0 (array (var n))
    | "EFunction" => ExprKind.function <$> arg c args 0 functionKind <*>
        arg c args 1 (functionDef n)
    | "EBlock" => ExprKind.block <$> arg c args 0 (array (expr n))
    | "EFor" => ExprKind.forIn <$> arg c args 0 (expr n) <*> arg c args 1 (expr n)
    | "EIf" => ExprKind.cond <$> arg c args 0 (expr n) <*> arg c args 1 (expr n) <*>
        arg c args 2 (optional (expr n))
    | "EWhile" => ExprKind.loop <$> arg c args 0 (expr n) <*> arg c args 1 (expr n) <*>
        arg c args 2 bool
    | "EReturn" => ExprKind.ret <$> lastArg c args 0 (optional (expr n))
    | "EBreak" => ok .brk
    | "EContinue" => ok .cont
    | "EUntyped" => ExprKind.untyped <$> arg c args 0 (expr n)
    | "EThrow" => ExprKind.throw <$> arg c args 0 (expr n)
    | "ECast" => ExprKind.cast <$> arg c args 0 (expr n) <*>
        lastArg c args 1 (optional (complexType n))
    | "ETernary" => ExprKind.ternary <$> arg c args 0 (expr n) <*> arg c args 1 (expr n) <*>
        arg c args 2 (expr n)
    | "ECheckType" => ExprKind.checkType <$> arg c args 0 (expr n) <*>
        arg c args 1 (complexType n)
    | "EMeta" => ExprKind.annotated <$> arg c args 0 (metadata n) <*> arg c args 1 (expr n)
    | c => unknown "ExprDef" c

def objectField : (n : Nat) → Decoder ObjectField
  | 0 => tooDeep "ObjectField"
  | n + 1 => object "ObjectField" fun fields =>
    ObjectField.mk <$> field fields "field" string <*> field fields "expr" (expr n) <*>
      field fields "quotes" quoteStatus

def var : (n : Nat) → Decoder Var
  | 0 => tooDeep "Var"
  | n + 1 => object "Var" fun fields =>
    Var.mk <$> field fields "name" string <*> field fields "type" (optional (complexType n)) <*>
      field fields "expr" (optional (expr n)) <*> field fields "isFinal" flag <*>
      field fields "isStatic" flag <*> field fields "meta" (arrayOrNull (metadata n))

def param : (n : Nat) → Decoder Param
  | 0 => tooDeep "FunctionArg"
  | n + 1 => object "FunctionArg" fun fields =>
    Param.mk <$> field fields "name" string <*> field fields "opt" flag <*>
      field fields "type" (optional (complexType n)) <*>
      field fields "value" (optional (expr n)) <*> field fields "meta" (arrayOrNull (metadata n))

def functionDef : (n : Nat) → Decoder FunctionDef
  | 0 => tooDeep "Function"
  | n + 1 => object "Function" fun fields =>
    FunctionDef.mk <$> field fields "args" (array (param n)) <*>
      field fields "ret" (optional (complexType n)) <*>
      field fields "expr" (optional (expr n)) <*>
      field fields "params" (arrayOrNull (typeParamDecl n))

def typeParamDecl : (n : Nat) → Decoder TypeParamDecl
  | 0 => tooDeep "TypeParamDecl"
  | n + 1 => object "TypeParamDecl" fun fields =>
    TypeParamDecl.mk <$> field fields "name" string <*>
      field fields "constraints" (arrayOrNull (complexType n)) <*>
      field fields "params" (arrayOrNull (typeParamDecl n)) <*>
      field fields "meta" (arrayOrNull (metadata n))

def metadata : (n : Nat) → Decoder Metadata
  | 0 => tooDeep "MetadataEntry"
  | n + 1 => object "MetadataEntry" fun fields =>
    Metadata.mk <$> field fields "name" string <*> field fields "params" (arrayOrNull (expr n)) <*>
      field fields "pos" position

def typePath : (n : Nat) → Decoder TypePath
  | 0 => tooDeep "TypePath"
  | n + 1 => object "TypePath" fun fields =>
    TypePath.mk <$> field fields "pack" strings <*> field fields "name" string <*>
      field fields "params" (arrayOrNull (typeArg n)) <*> field fields "sub" (optional string)

def typeArg : (n : Nat) → Decoder TypeArg
  | 0 => tooDeep "TypeParam"
  | n + 1 => enumOf "TypeParam" fun c args =>
    match c with
    | "TPType" => TypeArg.type <$> arg c args 0 (complexType n)
    | "TPExpr" => TypeArg.expr <$> arg c args 0 (expr n)
    | c => unknown "TypeParam" c

def complexType : (n : Nat) → Decoder ComplexType
  | 0 => tooDeep "ComplexType"
  | n + 1 => enumOf "ComplexType" fun c args =>
    match c with
    | "TPath" => ComplexType.path <$> arg c args 0 (typePath n)
    | "TFunction" => ComplexType.function <$> arg c args 0 (array (complexType n)) <*>
        arg c args 1 (complexType n)
    | "TAnonymous" => ComplexType.anonymous <$> arg c args 0 (array (fieldDecl n))
    | "TParent" => ComplexType.paren <$> arg c args 0 (complexType n)
    | "TOptional" => ComplexType.optional <$> arg c args 0 (complexType n)
    | "TNamed" => ComplexType.named <$> arg c args 0 string <*> arg c args 1 (complexType n)
    | c => unknown "ComplexType" c

def fieldKind : (n : Nat) → Decoder FieldKind
  | 0 => tooDeep "FieldType"
  | n + 1 => enumOf "FieldType" fun c args =>
    match c with
    | "FVar" => FieldKind.var <$> lastArg c args 0 (optional (complexType n)) <*>
        lastArg c args 1 (optional (expr n))
    | "FFun" => FieldKind.method <$> arg c args 0 (functionDef n)
    | "FProp" => FieldKind.property <$> arg c args 0 string <*> arg c args 1 string <*>
        lastArg c args 2 (optional (complexType n)) <*> lastArg c args 3 (optional (expr n))
    | c => unknown "FieldType" c

def fieldDecl : (n : Nat) → Decoder Field
  | 0 => tooDeep "Field"
  | n + 1 => object "Field" fun fields =>
    Field.mk <$> field fields "name" string <*> field fields "doc" (optional string) <*>
      field fields "access" (arrayOrNull access) <*> field fields "kind" (fieldKind n) <*>
      field fields "pos" position <*> field fields "meta" (arrayOrNull (metadata n))

end

/-! ## Type definitions -/

/-- The kind of a defined type, at most `n` deep. -/
def typeDefKind (n : Nat) : Decoder TypeDefKind := enumOf "TypeDefKind" fun c args =>
  match c with
  | "TDEnum" => ok .enum
  | "TDStructure" => ok .record
  | "TDClass" => TypeDefKind.classType <$> lastArg c args 0 (optional (typePath n)) <*>
      lastArg c args 1 (arrayOrNull (typePath n)) <*> lastArg c args 2 flag
  | "TDAlias" => TypeDefKind.synonym <$> arg c args 0 (complexType n)
  | "TDAbstract" => TypeDefKind.abstractType <$> lastArg c args 0 (optional (complexType n))
  | c => unknown "TypeDefKind" c

/-- A type definition, at most `n` deep. -/
def typeDefinition (n : Nat) : Decoder TypeDefinition := object "TypeDefinition" fun fields =>
  TypeDefinition.mk <$> field fields "pack" strings <*> field fields "name" string <*>
    field fields "pos" position <*> field fields "meta" (arrayOrNull (metadata n)) <*>
    field fields "params" (arrayOrNull (typeParamDecl n)) <*> field fields "isExtern" flag <*>
    field fields "kind" (typeDefKind n) <*> field fields "fields" (array (fieldDecl n))

/-! ## Types of the program -/

def path : Decoder Path := object "type reference" fun fields =>
  Path.mk <$> field fields "pack" strings <*> field fields "name" string

mutual

def type : (n : Nat) → Decoder Ty
  | 0 => tooDeep "Type"
  | n + 1 => enumOf "Type" fun c args =>
    let named (make : Path → List Ty → Ty) : Reading Ty :=
      make <$> arg c args 0 path <*> arg c args 1 (array (type n))
    match c with
    | "TMono" => (fun i : Int64 => Ty.mono i.toUInt64.toUInt32) <$> arg c args 0 int
    | "TEnum" => named Ty.enum
    | "TInst" => named Ty.inst
    | "TType" => named Ty.synonym
    | "TAbstract" => named Ty.abstract
    | "TFun" => Ty.func <$> arg c args 0 (array (tyParam n)) <*> arg c args 1 (type n)
    | "TAnonymous" => Ty.anon <$> arg c args 0 (object "AnonType" fun fields =>
        field fields "fields" (array (anonField n)))
    | "TDynamic" => ok .dynamic
    | c => unknown "Type" c

def tyParam : (n : Nat) → Decoder TyParam
  | 0 => tooDeep "function argument"
  | n + 1 => object "function argument" fun fields =>
    TyParam.mk <$> field fields "name" string <*> field fields "opt" flag <*>
      field fields "t" (type n)

def anonField : (n : Nat) → Decoder (String × Ty)
  | 0 => tooDeep "ClassField"
  | n + 1 => object "ClassField" fun fields =>
    Prod.mk <$> field fields "name" string <*> field fields "type" (type n)

end

end Decode

/-! ## Reading a whole value -/

namespace Value

variable (v : Value)

def decodeExpr : Decoded Expr := (Decode.expr v.depth v).verdict "Expr" v
def decodeField : Decoded Field := (Decode.fieldDecl v.depth v).verdict "Field" v
def decodeFields : Decoded (List Field) :=
  (Decode.array (Decode.fieldDecl v.depth) v).verdict "Array<Field>" v
def decodeComplexType : Decoded ComplexType :=
  (Decode.complexType v.depth v).verdict "ComplexType" v
def decodeTypeDefinition : Decoded TypeDefinition :=
  (Decode.typeDefinition v.depth v).verdict "TypeDefinition" v
def decodeType : Decoded Ty := (Decode.type v.depth v).verdict "Type" v
def decodePosition : Decoded Position := (Decode.position v).verdict "Position" v
def decodeMetadata : Decoded Metadata := (Decode.metadata v.depth v).verdict "MetadataEntry" v
def decodeString : Decoded String := (Decode.string v).verdict "String" v

end Value

end HaxeMacro
