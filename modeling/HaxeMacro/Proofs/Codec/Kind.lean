import HaxeMacro.Proofs.Codec.Depth
import HaxeMacro.Proofs.Codec.Notes

/-! # The kinds of parts

What every part of a value has to look like, as a table: the fields of an object, the constructors
of an enum and their arguments, the items of an array. The table says nothing of results; it says
which parts a reader looks at, in which order, and what it expects of each.
-/

namespace HaxeMacro

/-- The kinds of parts that are told apart. -/
inductive Kind where
  | expr | exprKind | constant | quotes | binaryOp | unaryOp | objectField | quoteStatus | var
  | functionKind | param | functionDef | typeParamDecl | metadata | typePath | typeArg
  | complexType | access | fieldKind | fieldDecl | typeDefKind | typeDefinition
  | path | type | tyParam | anonType | anonField
  | position | file | offset | string | bool | flag | int
  | array (item : Kind)
  | arrayOrNull (item : Kind)
  | optional (kind : Kind)
  deriving DecidableEq

namespace Kind

/-! ## The readers -/

abbrev Result : Kind → Type
  | expr => Expr
  | exprKind => ExprKind
  | constant => Constant
  | quotes => Quotes
  | binaryOp => BinaryOp
  | unaryOp => UnaryOp
  | objectField => ObjectField
  | quoteStatus => Bool
  | var => Var
  | functionKind => FunctionKind
  | param => Param
  | functionDef => FunctionDef
  | typeParamDecl => TypeParamDecl
  | metadata => Metadata
  | typePath => TypePath
  | typeArg => TypeArg
  | complexType => ComplexType
  | access => Access
  | fieldKind => FieldKind
  | fieldDecl => Field
  | typeDefKind => TypeDefKind
  | typeDefinition => TypeDefinition
  | path => Path
  | type => Ty
  | tyParam => TyParam
  | anonType => List (String × Ty)
  | anonField => String × Ty
  | position => Position
  | file => UInt32
  | offset => UInt32
  | string => String
  | bool => Bool
  | flag => Bool
  | int => Int64
  | array item => List item.Result
  | arrayOrNull item => List item.Result
  | optional kind => Option kind.Result

/-- The reader of a kind, at level `n`. -/
def read (n : Nat) : (k : Kind) → Decoder k.Result
  | expr => Decode.expr n
  | exprKind => Decode.exprKind n
  | constant => Decode.constant
  | quotes => Decode.quotes
  | binaryOp => Decode.binaryOp n
  | unaryOp => Decode.unaryOp
  | objectField => Decode.objectField n
  | quoteStatus => Decode.quoteStatus
  | var => Decode.var n
  | functionKind => Decode.functionKind
  | param => Decode.param n
  | functionDef => Decode.functionDef n
  | typeParamDecl => Decode.typeParamDecl n
  | metadata => Decode.metadata n
  | typePath => Decode.typePath n
  | typeArg => Decode.typeArg n
  | complexType => Decode.complexType n
  | access => Decode.access
  | fieldKind => Decode.fieldKind n
  | fieldDecl => Decode.fieldDecl n
  | typeDefKind => Decode.typeDefKind n
  | typeDefinition => Decode.typeDefinition n
  | path => Decode.path
  | type => Decode.type n
  | tyParam => Decode.tyParam n
  | anonType => Decode.object "AnonType" fun fields =>
      Decode.field fields "fields" (Decode.array (Decode.anonField n))
  | anonField => Decode.anonField n
  | position => Decode.position
  | file => Decode.file
  | offset => Decode.offset
  | string => Decode.string
  | bool => Decode.bool
  | flag => Decode.flag
  | int => Decode.int
  | array item => Decode.array (item.read n)
  | arrayOrNull item => Decode.arrayOrNull (item.read n)
  | optional kind => Decode.optional (kind.read n)

def label : Kind → String
  | expr => "Expr"
  | fieldDecl => "Field"
  | array fieldDecl => "Array<Field>"
  | complexType => "ComplexType"
  | typeDefinition => "TypeDefinition"
  | type => "Type"
  | position => "Position"
  | metadata => "MetadataEntry"
  | string => "String"
  | _ => "a value"

def decode (k : Kind) (v : Value) : Decoded k.Result := (k.read v.depth v).verdict k.label v

theorem decode_type (v : Value) : type.decode v = v.decodeType := rfl

/-! ## The table -/

def acceptsNull : Kind → Bool
  | quotes | quoteStatus | functionKind | position | flag | arrayOrNull _ | optional _ => true
  | _ => false

end Kind

/-- An argument of a constructor. One that need not be there reads as null when it is missing. -/
structure Slot where
  kind : Kind
  isNeeded : Bool
  reads_missing : isNeeded = false → kind.acceptsNull = true

/-- What values of a kind look like. -/
inductive Shape where
  /-- A value without parts; `check` says what is expected of one that does not fit, and how that
  one is called. -/
  | leaf (check : Value → Option (String × String))
  | object (expected : String) (fields : List (String × Kind))
  | enum (type : String) (slots? : String → Option (List Slot))
  | array (item : Kind)

namespace Kind

def plain (name : String) (fits : Value → Bool) (v : Value) : Option (String × String) :=
  if fits v then none else some (name, v.describe)

def checkOffset : Value → Option (String × String)
  | .int i =>
    if 0 ≤ i.toInt ∧ i.toInt < 4294967296 then none else some ("Position offset", wholeText i)
  | v => some ("Int", v.describe)

def checkFile : Value → Option (String × String)
  | .int i => if i.toInt < 0 then none else checkOffset (.int i)
  | v => some ("Int", v.describe)

def needed (k : Kind) : Slot := ⟨k, true, nofun⟩

def last (k : Kind) (h : k.acceptsNull = true := by rfl) : Slot := ⟨k, false, fun _ => h⟩

def exprSlots? : String → Option (List Slot)
  | "EConst" => some [needed constant]
  | "EArray" => some [needed expr, needed expr]
  | "EBinop" => some [needed binaryOp, needed expr, needed expr]
  | "EField" => some [needed expr, needed string]
  | "EParenthesis" => some [needed expr]
  | "EObjectDecl" => some [needed (array objectField)]
  | "EArrayDecl" => some [needed (array expr)]
  | "ECall" => some [needed expr, needed (array expr)]
  | "ENew" => some [needed typePath, needed (array expr)]
  | "EUnop" => some [needed unaryOp, needed bool, needed expr]
  | "EVars" => some [needed (array var)]
  | "EFunction" => some [needed functionKind, needed functionDef]
  | "EBlock" => some [needed (array expr)]
  | "EFor" => some [needed expr, needed expr]
  | "EIf" => some [needed expr, needed expr, needed (optional expr)]
  | "EWhile" => some [needed expr, needed expr, needed bool]
  | "EReturn" => some [last (optional expr)]
  | "EBreak" => some []
  | "EContinue" => some []
  | "EUntyped" => some [needed expr]
  | "EThrow" => some [needed expr]
  | "ECast" => some [needed expr, last (optional complexType)]
  | "ETernary" => some [needed expr, needed expr, needed expr]
  | "ECheckType" => some [needed expr, needed complexType]
  | "EMeta" => some [needed metadata, needed expr]
  | _ => none

def constantSlots? : String → Option (List Slot)
  | "CInt" => some [needed string]
  | "CFloat" => some [needed string]
  | "CString" => some [needed string, last quotes]
  | "CIdent" => some [needed string]
  | "CRegexp" => some [needed string, needed string]
  | _ => none

def binaryOpSlots? (c : String) : Option (List Slot) :=
  if c = "OpAssignOp" then some [needed binaryOp] else (Decode.plainOp? c).map fun _ => []

def quotesSlots? : String → Option (List Slot)
  | "DoubleQuotes" | "SingleQuotes" => some []
  | _ => none

def unaryOpSlots? : String → Option (List Slot)
  | "OpIncrement" | "OpDecrement" | "OpNot" | "OpNeg" | "OpNegBits" | "OpSpread" => some []
  | _ => none

def quoteStatusSlots? : String → Option (List Slot)
  | "Unquoted" | "Quoted" => some []
  | _ => none

def functionKindSlots? : String → Option (List Slot)
  | "FAnonymous" => some []
  | "FNamed" => some [needed string]
  | "FArrow" => some []
  | _ => none

def typeArgSlots? : String → Option (List Slot)
  | "TPType" => some [needed complexType]
  | "TPExpr" => some [needed expr]
  | _ => none

def complexTypeSlots? : String → Option (List Slot)
  | "TPath" => some [needed typePath]
  | "TFunction" => some [needed (array complexType), needed complexType]
  | "TAnonymous" => some [needed (array fieldDecl)]
  | "TParent" => some [needed complexType]
  | "TOptional" => some [needed complexType]
  | "TNamed" => some [needed string, needed complexType]
  | _ => none

def accessSlots? : String → Option (List Slot)
  | "APublic" | "APrivate" | "AStatic" | "AOverride"
  | "ADynamic" | "AInline" | "AMacro" | "AFinal" | "AExtern" => some []
  | _ => none

def fieldKindSlots? : String → Option (List Slot)
  | "FVar" => some [last (optional complexType), last (optional expr)]
  | "FFun" => some [needed functionDef]
  | "FProp" => some
      [needed string, needed string, last (optional complexType), last (optional expr)]
  | _ => none

def typeDefKindSlots? : String → Option (List Slot)
  | "TDEnum" => some []
  | "TDStructure" => some []
  | "TDClass" => some [last (optional typePath), last (arrayOrNull typePath), last flag]
  | "TDAlias" => some [needed complexType]
  | "TDAbstract" => some [last (optional complexType)]
  | _ => none

def typeSlots? : String → Option (List Slot)
  | "TMono" => some [needed int]
  | "TEnum" | "TInst" | "TType" | "TAbstract" => some [needed path, needed (array type)]
  | "TFun" => some [needed (array tyParam), needed type]
  | "TAnonymous" => some [needed anonType]
  | "TDynamic" => some []
  | _ => none

/-- What the values of the kind look like that are not null. -/
def shape : Kind → Shape
  | expr => .object "Expr" [("expr", exprKind), ("pos", position)]
  | exprKind => .enum "ExprDef" exprSlots?
  | constant => .enum "Constant" constantSlots?
  | quotes => .enum "StringLiteralKind" quotesSlots?
  | binaryOp => .enum "Binop" binaryOpSlots?
  | unaryOp => .enum "Unop" unaryOpSlots?
  | objectField => .object "ObjectField"
      [("field", string), ("expr", expr), ("quotes", quoteStatus)]
  | quoteStatus => .enum "QuoteStatus" quoteStatusSlots?
  | var => .object "Var" [("name", string), ("type", optional complexType),
      ("expr", optional expr), ("isFinal", flag), ("isStatic", flag),
      ("meta", arrayOrNull metadata)]
  | functionKind => .enum "FunctionKind" functionKindSlots?
  | param => .object "FunctionArg" [("name", string), ("opt", flag),
      ("type", optional complexType), ("value", optional expr), ("meta", arrayOrNull metadata)]
  | functionDef => .object "Function" [("args", array param), ("ret", optional complexType),
      ("expr", optional expr), ("params", arrayOrNull typeParamDecl)]
  | typeParamDecl => .object "TypeParamDecl" [("name", string),
      ("constraints", arrayOrNull complexType), ("params", arrayOrNull typeParamDecl),
      ("meta", arrayOrNull metadata)]
  | metadata => .object "MetadataEntry"
      [("name", string), ("params", arrayOrNull expr), ("pos", position)]
  | typePath => .object "TypePath" [("pack", array string), ("name", string),
      ("params", arrayOrNull typeArg), ("sub", optional string)]
  | typeArg => .enum "TypeParam" typeArgSlots?
  | complexType => .enum "ComplexType" complexTypeSlots?
  | access => .enum "Access" accessSlots?
  | fieldKind => .enum "FieldType" fieldKindSlots?
  | fieldDecl => .object "Field" [("name", string), ("doc", optional string),
      ("access", arrayOrNull access), ("kind", fieldKind), ("pos", position),
      ("meta", arrayOrNull metadata)]
  | typeDefKind => .enum "TypeDefKind" typeDefKindSlots?
  | typeDefinition => .object "TypeDefinition" [("pack", array string), ("name", string),
      ("pos", position), ("meta", arrayOrNull metadata), ("params", arrayOrNull typeParamDecl),
      ("isExtern", flag), ("kind", typeDefKind), ("fields", array fieldDecl)]
  | path => .object "type reference" [("pack", array string), ("name", string)]
  | type => .enum "Type" typeSlots?
  | tyParam => .object "function argument" [("name", string), ("opt", flag), ("t", type)]
  | anonType => .object "AnonType" [("fields", array anonField)]
  | anonField => .object "ClassField" [("name", string), ("type", type)]
  | position => .object "Position" [("file", file), ("min", offset), ("max", offset)]
  | file => .leaf checkFile
  | offset => .leaf checkOffset
  | string => .leaf (plain "String" (·.string?.isSome))
  | bool => .leaf (plain "Bool" fun v => v matches .bool _)
  | flag => .leaf (plain "Bool" fun v => v matches .bool _)
  | int => .leaf (plain "Int" fun v => v matches .int _)
  | array item => .array item
  | arrayOrNull item => .array item
  | optional kind => kind.shape

end Kind

end HaxeMacro
