import HaxeMacro.Position
import HaxeMacro.Fragment.Operator

/-! # Program fragments

The structures that cross the border between a program and its macros: expressions, complex types,
class fields, metadata and type definitions. Every one keeps the position it was read or made at.
-/

namespace HaxeMacro

/-- The quotes of a string literal; single quotes mark an interpolated string. -/
inductive Quotes where
  | double | single
  deriving DecidableEq, Repr, Inhabited

/-- A literal or an identifier. Numbers keep their source text. -/
inductive Constant where
  | int (text : String)
  | float (text : String)
  | string (text : String) (quotes : Quotes)
  | ident (name : String)
  | regexp (pattern flags : String)
  deriving DecidableEq, Repr, Inhabited

inductive FunctionKind where
  | anonymous
  | named (name : String)
  | arrow
  deriving DecidableEq, Repr, Inhabited

inductive Access where
  | pub | priv | static | override | dynamic | inlined | macroCode | final | external
  deriving DecidableEq, Repr, Inhabited

mutual

structure Expr where
  kind : ExprKind
  pos : Position

inductive ExprKind where
  | const (c : Constant)
  | index (target index : Expr)
  | binary (op : BinaryOp) (left right : Expr)
  | field (target : Expr) (name : String)
  | paren (inner : Expr)
  | object (fields : List ObjectField)
  | array (items : List Expr)
  | call (callee : Expr) (args : List Expr)
  | new (path : TypePath) (args : List Expr)
  /-- `after` tells whether the operator follows its operand. -/
  | unary (op : UnaryOp) (after : Bool) (operand : Expr)
  | vars (vars : List Var)
  | function (kind : FunctionKind) (func : FunctionDef)
  | block (items : List Expr)
  | forIn (head body : Expr)
  | cond (test yes : Expr) (no : Option Expr)
  /-- `testFirst` is false for `do body while (test)`. -/
  | loop (test body : Expr) (testFirst : Bool)
  | ret (value : Option Expr)
  | brk
  | cont
  | untyped (inner : Expr)
  | throw (inner : Expr)
  | cast (inner : Expr) (type : Option ComplexType)
  | ternary (test yes no : Expr)
  | checkType (inner : Expr) (type : ComplexType)
  | annotated (entry : Metadata) (inner : Expr)

structure ObjectField where
  name : String
  value : Expr
  quoted : Bool

structure Var where
  name : String
  type : Option ComplexType
  init : Option Expr
  isFinal : Bool
  isStatic : Bool
  annotations : List Metadata

structure Param where
  name : String
  optional : Bool
  type : Option ComplexType
  default : Option Expr
  annotations : List Metadata

/-- Parameters, result type and body of a function. -/
structure FunctionDef where
  params : List Param
  ret : Option ComplexType
  body : Option Expr
  typeParams : List TypeParamDecl

/-- `pack.Name<Args>`, or `pack.Module.Sub<Args>` with `sub` set. -/
structure TypePath where
  pack : List String
  name : String
  args : List TypeArg
  sub : Option String

/-- An argument of a generic type. -/
inductive TypeArg where
  | type (t : ComplexType)
  | expr (e : Expr)

inductive ComplexType where
  | path (p : TypePath)
  | function (args : List ComplexType) (ret : ComplexType)
  | anonymous (fields : List Field)
  | paren (inner : ComplexType)
  | optional (inner : ComplexType)
  | named (name : String) (inner : ComplexType)

structure TypeParamDecl where
  name : String
  constraints : List ComplexType
  params : List TypeParamDecl
  annotations : List Metadata

/-- `@name(args)` or `@:name(args)`; the name keeps its colon. -/
structure Metadata where
  name : String
  args : List Expr
  pos : Position

inductive FieldKind where
  | var (type : Option ComplexType) (init : Option Expr)
  | method (func : FunctionDef)
  | property (getter setter : String) (type : Option ComplexType) (init : Option Expr)

/-- A field of a class or of an anonymous structure. -/
structure Field where
  name : String
  doc : Option String
  access : List Access
  kind : FieldKind
  pos : Position
  annotations : List Metadata

end

inductive TypeDefKind where
  | enum
  | record
  | classType (super : Option TypePath) (interfaces : List TypePath) (isInterface : Bool)
  | synonym (t : ComplexType)
  | abstractType (t : Option ComplexType)

/-- A type definition that a macro hands to the compiler. -/
structure TypeDefinition where
  pack : List String
  name : String
  pos : Position
  annotations : List Metadata
  params : List TypeParamDecl
  isExtern : Bool
  kind : TypeDefKind
  fields : List Field

namespace Expr

def ident (name : String) (pos : Position) : Expr := ⟨.const (.ident name), pos⟩

def int (text : String) (pos : Position) : Expr := ⟨.const (.int text), pos⟩

def null (pos : Position) : Expr := ident "null" pos

def ident? : Expr → Option String
  | ⟨.const (.ident name), _⟩ => some name
  | _ => none

end Expr

end HaxeMacro
