import HaxeMacro.Program.Ty
import HaxeMacro.Value.Basic

/-! # Fragments as values

The form in which macro code sees a fragment: an expression is an object of its form and its
position, and every choice is an enum value with the names and numbers of the macro library.
-/

namespace HaxeMacro

namespace Encode

/-! ## Pieces -/

def option {α : Type} (f : α → Value) : Option α → Value
  | none => .null
  | some a => f a

def list {α : Type} (f : α → Value) (items : List α) : Value := .array (items.map f)

def strings (items : List String) : Value := list .string items

/-- An offset or a file number. -/
def word (n : UInt32) : Value := .int (Int64.ofNat n.toNat)

/-- The file of a null position is -1. -/
def position (p : Position) : Value := .object [
  ("file", if p.isNull then .int (-1) else word p.file),
  ("min", word p.min),
  ("max", word p.max)]

def quotes : Quotes → Value
  | .double => .enum "StringLiteralKind" "DoubleQuotes" 0 []
  | .single => .enum "StringLiteralKind" "SingleQuotes" 1 []

def constant : Constant → Value
  | .int text => .enum "Constant" "CInt" 0 [.string text]
  | .float text => .enum "Constant" "CFloat" 1 [.string text]
  | .string text q => .enum "Constant" "CString" 2 [.string text, quotes q]
  | .ident name => .enum "Constant" "CIdent" 3 [.string name]
  | .regexp pattern flags => .enum "Constant" "CRegexp" 4 [.string pattern, .string flags]

def binaryOp : BinaryOp → Value
  | .add => .enum "Binop" "OpAdd" 0 []
  | .mult => .enum "Binop" "OpMult" 1 []
  | .div => .enum "Binop" "OpDiv" 2 []
  | .sub => .enum "Binop" "OpSub" 3 []
  | .assign => .enum "Binop" "OpAssign" 4 []
  | .eq => .enum "Binop" "OpEq" 5 []
  | .notEq => .enum "Binop" "OpNotEq" 6 []
  | .gt => .enum "Binop" "OpGt" 7 []
  | .gte => .enum "Binop" "OpGte" 8 []
  | .lt => .enum "Binop" "OpLt" 9 []
  | .lte => .enum "Binop" "OpLte" 10 []
  | .and => .enum "Binop" "OpAnd" 11 []
  | .or => .enum "Binop" "OpOr" 12 []
  | .xor => .enum "Binop" "OpXor" 13 []
  | .boolAnd => .enum "Binop" "OpBoolAnd" 14 []
  | .boolOr => .enum "Binop" "OpBoolOr" 15 []
  | .shl => .enum "Binop" "OpShl" 16 []
  | .shr => .enum "Binop" "OpShr" 17 []
  | .ushr => .enum "Binop" "OpUShr" 18 []
  | .mod => .enum "Binop" "OpMod" 19 []
  | .assignOp op => .enum "Binop" "OpAssignOp" 20 [binaryOp op]
  | .interval => .enum "Binop" "OpInterval" 21 []
  | .arrow => .enum "Binop" "OpArrow" 22 []
  | .isIn => .enum "Binop" "OpIn" 23 []
  | .nullCoal => .enum "Binop" "OpNullCoal" 24 []

def unaryOp : UnaryOp → Value
  | .increment => .enum "Unop" "OpIncrement" 0 []
  | .decrement => .enum "Unop" "OpDecrement" 1 []
  | .not => .enum "Unop" "OpNot" 2 []
  | .neg => .enum "Unop" "OpNeg" 3 []
  | .negBits => .enum "Unop" "OpNegBits" 4 []
  | .spread => .enum "Unop" "OpSpread" 5 []

def access : Access → Value
  | .pub => .enum "Access" "APublic" 0 []
  | .priv => .enum "Access" "APrivate" 1 []
  | .static => .enum "Access" "AStatic" 2 []
  | .override => .enum "Access" "AOverride" 3 []
  | .dynamic => .enum "Access" "ADynamic" 4 []
  | .inlined => .enum "Access" "AInline" 5 []
  | .macroCode => .enum "Access" "AMacro" 6 []
  | .final => .enum "Access" "AFinal" 7 []
  | .external => .enum "Access" "AExtern" 8 []

def functionKind : FunctionKind → Value
  | .anonymous => .enum "FunctionKind" "FAnonymous" 0 []
  | .named name => .enum "FunctionKind" "FNamed" 1 [.string name, .bool false]
  | .arrow => .enum "FunctionKind" "FArrow" 2 []

def quoteStatus (quoted : Bool) : Value :=
  if quoted then .enum "QuoteStatus" "Quoted" 1 [] else .enum "QuoteStatus" "Unquoted" 0 []

/-! ## Expressions, types and fields -/

/-- The value of a form of expressions. -/
def form (constructor : String) (index : Nat) (args : List Value) : Value :=
  .enum "ExprDef" constructor index args

mutual

def expr : Expr → Value
  | ⟨kind, pos⟩ => .object [("expr", exprKind kind), ("pos", position pos)]

def exprKind : ExprKind → Value
  | .const c => form "EConst" 0 [constant c]
  | .index a b => form "EArray" 1 [expr a, expr b]
  | .binary op a b => form "EBinop" 2 [binaryOp op, expr a, expr b]
  | .field e name => form "EField" 3 [expr e, .string name]
  | .paren e => form "EParenthesis" 4 [expr e]
  | .object fields => form "EObjectDecl" 5 [.array (objectFields fields)]
  | .array items => form "EArrayDecl" 6 [.array (exprs items)]
  | .call callee args => form "ECall" 7 [expr callee, .array (exprs args)]
  | .new path args => form "ENew" 8 [typePath path, .array (exprs args)]
  | .unary op after e => form "EUnop" 9 [unaryOp op, .bool after, expr e]
  | .vars vs => form "EVars" 10 [.array (vars vs)]
  | .function kind func => form "EFunction" 11 [functionKind kind, functionDef func]
  | .block items => form "EBlock" 12 [.array (exprs items)]
  | .forIn head body => form "EFor" 13 [expr head, expr body]
  | .cond test yes no => form "EIf" 14 [expr test, expr yes, optionExpr no]
  | .loop test body first => form "EWhile" 15 [expr test, expr body, .bool first]
  | .ret value => form "EReturn" 18 [optionExpr value]
  | .brk => form "EBreak" 19 []
  | .cont => form "EContinue" 20 []
  | .untyped e => form "EUntyped" 21 [expr e]
  | .throw e => form "EThrow" 22 [expr e]
  | .cast e type => form "ECast" 23 [expr e, optionType type]
  | .ternary test yes no => form "ETernary" 25 [expr test, expr yes, expr no]
  | .checkType e type => form "ECheckType" 26 [expr e, complexType type]
  | .annotated entry e => form "EMeta" 27 [metadata entry, expr e]

def exprs : List Expr → List Value
  | [] => []
  | e :: es => expr e :: exprs es

def optionExpr : Option Expr → Value
  | none => .null
  | some e => expr e

def objectField : ObjectField → Value
  | ⟨name, value, quoted⟩ => .object [
      ("field", .string name), ("expr", expr value), ("quotes", quoteStatus quoted)]

def objectFields : List ObjectField → List Value
  | [] => []
  | f :: fs => objectField f :: objectFields fs

def var : Var → Value
  | ⟨name, type, init, isFinal, isStatic, annotations⟩ => .object [
      ("name", .string name), ("type", optionType type), ("expr", optionExpr init),
      ("isFinal", .bool isFinal), ("isStatic", .bool isStatic),
      ("meta", .array (metadatas annotations))]

def vars : List Var → List Value
  | [] => []
  | v :: vs => var v :: vars vs

def param : Param → Value
  | ⟨name, optional, type, default, annotations⟩ => .object [
      ("name", .string name), ("opt", .bool optional), ("type", optionType type),
      ("value", optionExpr default), ("meta", .array (metadatas annotations))]

def params : List Param → List Value
  | [] => []
  | p :: ps => param p :: params ps

def functionDef : FunctionDef → Value
  | ⟨ps, ret, body, typeParams⟩ => .object [
      ("args", .array (params ps)), ("ret", optionType ret), ("expr", optionExpr body),
      ("params", .array (typeParamDecls typeParams))]

def typeParamDecl : TypeParamDecl → Value
  | ⟨name, constraints, ps, annotations⟩ => .object [
      ("name", .string name), ("constraints", .array (complexTypes constraints)),
      ("params", .array (typeParamDecls ps)), ("meta", .array (metadatas annotations))]

def typeParamDecls : List TypeParamDecl → List Value
  | [] => []
  | d :: ds => typeParamDecl d :: typeParamDecls ds

def metadata : Metadata → Value
  | ⟨name, args, pos⟩ => .object [
      ("name", .string name), ("params", .array (exprs args)), ("pos", position pos)]

def metadatas : List Metadata → List Value
  | [] => []
  | m :: ms => metadata m :: metadatas ms

def typePath : TypePath → Value
  | ⟨pack, name, args, sub⟩ => .object [
      ("pack", strings pack), ("name", .string name), ("params", .array (typeArgs args)),
      ("sub", option .string sub)]

def typeArg : TypeArg → Value
  | .type t => .enum "TypeParam" "TPType" 0 [complexType t]
  | .expr e => .enum "TypeParam" "TPExpr" 1 [expr e]

def typeArgs : List TypeArg → List Value
  | [] => []
  | a :: as => typeArg a :: typeArgs as

def complexType : ComplexType → Value
  | .path p => .enum "ComplexType" "TPath" 0 [typePath p]
  | .function args ret =>
    .enum "ComplexType" "TFunction" 1 [.array (complexTypes args), complexType ret]
  | .anonymous fields => .enum "ComplexType" "TAnonymous" 2 [.array (fieldValues fields)]
  | .paren t => .enum "ComplexType" "TParent" 3 [complexType t]
  | .optional t => .enum "ComplexType" "TOptional" 5 [complexType t]
  | .named name t => .enum "ComplexType" "TNamed" 6 [.string name, complexType t]

def complexTypes : List ComplexType → List Value
  | [] => []
  | t :: ts => complexType t :: complexTypes ts

def optionType : Option ComplexType → Value
  | none => .null
  | some t => complexType t

def fieldKind : FieldKind → Value
  | .var type init => .enum "FieldType" "FVar" 0 [optionType type, optionExpr init]
  | .method func => .enum "FieldType" "FFun" 1 [functionDef func]
  | .property getter setter type init =>
    .enum "FieldType" "FProp" 2
      [.string getter, .string setter, optionType type, optionExpr init]

def field : Field → Value
  | ⟨name, doc, modifiers, kind, pos, annotations⟩ => .object [
      ("name", .string name), ("doc", option .string doc), ("access", list access modifiers),
      ("kind", fieldKind kind), ("pos", position pos), ("meta", .array (metadatas annotations))]

def fieldValues : List Field → List Value
  | [] => []
  | f :: fs => field f :: fieldValues fs

end

/-- An array of fields. -/
def fields (fs : List Field) : Value := .array (fieldValues fs)

/-! ## Type definitions -/

def typeDefKind : TypeDefKind → Value
  | .enum => .enum "TypeDefKind" "TDEnum" 0 []
  | .record => .enum "TypeDefKind" "TDStructure" 1 []
  | .classType super interfaces isInterface =>
    .enum "TypeDefKind" "TDClass" 2
      [option typePath super, list typePath interfaces, .bool isInterface]
  | .synonym t => .enum "TypeDefKind" "TDAlias" 3 [complexType t]
  | .abstractType t => .enum "TypeDefKind" "TDAbstract" 4 [optionType t]

def typeDefinition (d : TypeDefinition) : Value := .object [
  ("pack", strings d.pack), ("name", .string d.name), ("pos", position d.pos),
  ("meta", .array (metadatas d.annotations)), ("params", .array (typeParamDecls d.params)),
  ("isExtern", .bool d.isExtern), ("kind", typeDefKind d.kind),
  ("fields", .array (fieldValues d.fields))]

/-! ## Types of the program -/

def path (p : Path) : Value := .object [("pack", strings p.pack), ("name", .string p.name)]

mutual

def type : Ty → Value
  | .mono id => .enum "Type" "TMono" 0 [word id]
  | .enum p args => .enum "Type" "TEnum" 1 [path p, .array (types args)]
  | .inst p args => .enum "Type" "TInst" 2 [path p, .array (types args)]
  | .synonym p args => .enum "Type" "TType" 3 [path p, .array (types args)]
  | .func ps ret => .enum "Type" "TFun" 4 [.array (tyParams ps), type ret]
  | .anon fs => .enum "Type" "TAnonymous" 5 [.object [("fields", .array (anonFields fs))]]
  | .dynamic => .enum "Type" "TDynamic" 6 [.null]
  | .abstract p args => .enum "Type" "TAbstract" 8 [path p, .array (types args)]

def types : List Ty → List Value
  | [] => []
  | t :: ts => type t :: types ts

def tyParam : TyParam → Value
  | ⟨name, optional, t⟩ =>
    .object [("name", .string name), ("opt", .bool optional), ("t", type t)]

def tyParams : List TyParam → List Value
  | [] => []
  | p :: ps => tyParam p :: tyParams ps

def anonField : String × Ty → Value
  | (name, t) => .object [("name", .string name), ("type", type t)]

def anonFields : List (String × Ty) → List Value
  | [] => []
  | f :: fs => anonField f :: anonFields fs

end

end Encode

end HaxeMacro
