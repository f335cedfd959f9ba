import HaxeMacro.Compilation.World
import HaxeMacro.Diagnostic.Error

/-! # Type checkers

The type checker is not part of this library: it is whatever offers these operations. Every
compilation context has an instance of its own, of type `I`, and all instances share a state of type
`G`.
-/

namespace HaxeMacro

/-- An operation of a type checker. -/
abbrev Checking (I G α : Type) := ExceptT TypingError (StateM (I × World G)) α

inductive MatchedArg where
  /-- The argument with the number `index` in the call, after typing. -/
  | supplied (index : Nat) (typed : TypedExpr)
  | omitted

structure Typer (I G : Type) where
  fork : I → I
  loadModule : Path → Position → Checking I G ModuleId
  loadComplexType : ComplexType → Position → Checking I G Ty
  unify : Ty → Ty → Checking I G Unit
  typeExpr : Expr → Option Ty → Checking I G TypedExpr
  /-- Matches the arguments of a call with parameters. -/
  matchArgs : List Expr → List TyParam → Position → Checking I G (List MatchedArg)
  freshType : StateM (I × World G) Ty
  defineModule : Path → List TypeDefinition → Position → Checking I G ModuleId
  finalize : Checking I G Unit
  /-- The modules that were made since the last time. -/
  takeProduced : StateM (I × World G) (List ModuleId)
  setDisplay : Bool → StateM (I × World G) Unit

end HaxeMacro
