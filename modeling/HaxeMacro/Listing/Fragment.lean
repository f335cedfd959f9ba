import HaxeMacro.Listing.Operator
import HaxeMacro.Parser.Entry

/-! # Listing fragments

An expression is listed by its form, its position and its parts.
-/

namespace HaxeMacro

namespace Listing

open JsonTree (text texts flag)

mutual

def expr : Expr → JsonTree
  | ⟨kind, pos⟩ => .array (text (kindName kind) :: position pos :: exprParts kind)

/-- The parts of an expression. -/
def exprParts : ExprKind → List JsonTree
  | .const c => [constant c]
  | .index a b | .forIn a b => [expr a, expr b]
  | .binary op a b => [binaryOp op, expr a, expr b]
  | .field e name => [expr e, text name]
  | .paren e | .untyped e | .throw e => [expr e]
  | .object fields => [.array (objectFields fields)]
  | .array items | .block items => [.array (exprs items)]
  | .call callee args => [expr callee, .array (exprs args)]
  | .new path args => [typePath path, .array (exprs args)]
  | .unary op after e => [unaryOp op, flag after, expr e]
  | .vars vs => [.array (vars vs)]
  | .function kind func => [functionKind kind, functionDef func]
  | .cond test yes no => [expr test, expr yes, optionExpr no]
  | .loop test body first => [expr test, expr body, flag first]
  | .ret value => [optionExpr value]
  | .brk | .cont => []
  | .cast e type => [expr e, optionType type]
  | .ternary test yes no => [expr test, expr yes, expr no]
  | .checkType e type => [expr e, complexType type]
  | .annotated entry e => [metadata entry, expr e]

def exprs : List Expr → List JsonTree
  | [] => []
  | e :: es => expr e :: exprs es

def optionExpr : Option Expr → JsonTree
  | none => .null
  | some e => expr e

def objectFields : List ObjectField → List JsonTree
  | [] => []
  | ⟨name, value, quoted⟩ :: fields =>
    .array [text name, flag quoted, expr value] :: objectFields fields

def vars : List Var → List JsonTree
  | [] => []
  | ⟨name, type, init, isFinal, isStatic, annotations⟩ :: vs =>
    .array [text name, optionType type, optionExpr init, flag isFinal, flag isStatic,
      .array (metadatas annotations)] :: vars vs

def params : List Param → List JsonTree
  | [] => []
  | ⟨name, optional, type, default, annotations⟩ :: ps =>
    .array [text name, flag optional, optionType type, optionExpr default,
      .array (metadatas annotations)] :: params ps

def functionDef : FunctionDef → JsonTree
  | ⟨args, ret, body, typeParams⟩ => .object [
      ("args", .array (params args)), ("ret", optionType ret), ("expr", optionExpr body),
      ("params", .array (typeParamDecls typeParams))]

def typeParamDecls : List TypeParamDecl → List JsonTree
  | [] => []
  | ⟨name, constraints, params, annotations⟩ :: ds =>
    .array [text name, .array (complexTypes constraints), .array (typeParamDecls params),
      .array (metadatas annotations)] :: typeParamDecls ds

def metadata : Metadata → JsonTree
  | ⟨name, args, pos⟩ => .array [text name, .array (exprs args), position pos]

def metadatas : List Metadata → List JsonTree
  | [] => []
  | m :: ms => metadata m :: metadatas ms

def typePath : TypePath → JsonTree
  | ⟨pack, name, args, sub⟩ =>
    .array [texts pack, text name, .array (typeArgs args), .option text sub]

def typeArgs : List TypeArg → List JsonTree
  | [] => []
  | .type t :: args => .array [text "Type", complexType t] :: typeArgs args
  | .expr e :: args => .array [text "Expr", expr e] :: typeArgs args

def complexType : ComplexType → JsonTree
  | .path p => .array [text "Path", typePath p]
  | .function args ret => .array [text "Function", .array (complexTypes args), complexType ret]
  | .anonymous fields => .array [text "Anonymous", .array (fieldList fields)]
  | .paren t => .array [text "Parent", complexType t]
  | .optional t => .array [text "Optional", complexType t]
  | .named name t => .array [text "Named", text name, complexType t]

def complexTypes : List ComplexType → List JsonTree
  | [] => []
  | t :: ts => complexType t :: complexTypes ts

def optionType : Option ComplexType → JsonTree
  | none => .null
  | some t => complexType t

def fieldKind : FieldKind → JsonTree
  | .var type init => .array [text "Var", optionType type, optionExpr init]
  | .method func => .array [text "Fun", functionDef func]
  | .property getter setter type init =>
    .array [text "Prop", text getter, text setter, optionType type, optionExpr init]

def field : Field → JsonTree
  | ⟨name, doc, modifiers, kind, pos, annotations⟩ =>
    .array [text name, .option text doc, .list access modifiers, fieldKind kind, position pos,
      .array (metadatas annotations)]

def fieldList : List Field → List JsonTree
  | [] => []
  | f :: fs => field f :: fieldList fs

end

def fields (fs : List Field) : JsonTree := .array (fieldList fs)

def typeDefKind : TypeDefKind → JsonTree
  | .enum => texts ["Enum"]
  | .record => texts ["Structure"]
  | .classType super interfaces isInterface =>
    .array [text "Class", .option typePath super, .list typePath interfaces, flag isInterface]
  | .synonym t => .array [text "Alias", complexType t]
  | .abstractType t => .array [text "Abstract", optionType t]

def typeDefinition (d : TypeDefinition) : JsonTree := .object [
  ("pack", texts d.pack), ("name", text d.name), ("pos", position d.pos),
  ("meta", .array (metadatas d.annotations)), ("params", .array (typeParamDecls d.params)),
  ("extern", flag d.isExtern), ("kind", typeDefKind d.kind), ("fields", fields d.fields)]

/-- A fragment of any kind. -/
def fragment : Fragment → JsonTree
  | .expr e => expr e
  | .metadata m => metadata m
  | .type t => complexType t

end Listing

end HaxeMacro
