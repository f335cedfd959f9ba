import HaxeMacro.Compilation.Request

/-! # Runtimes

What runs the code of macros. The engine needs nothing of a runtime but these operations; its state
is of some type `R`.
-/

namespace HaxeMacro

inductive RuntimeFailure where
  | exception (payload : Value)
  | fatal (message : String)
  | stopped (s : Stop)

namespace RuntimeFailure

def text : RuntimeFailure → String
  | exception payload => "uncaught exception " ++ payload.text
  | fatal message => "fatal runtime error: " ++ message
  | stopped _ => "stopped"

def ofText (message : String) : RuntimeFailure := exception (.string message)

/-- A fault of an operator, as macro code meets it. -/
def ofFault : Fault → RuntimeFailure
  | .error e => ofText e.message
  | .stopped s => stopped s

end RuntimeFailure

abbrev Action (R I G α : Type) := ExceptT RuntimeFailure (StateM (R × Session I G)) α

structure Runtime (R I G : Type) where
  /-- The state of a new runtime, by its generation. -/
  create : Nat → R
  init : Action R I G Unit
  /-- Prepares a runtime for another compilation. -/
  reuse : StateM (R × Session I G) Unit
  /-- Calls a static method; it may end without a value. -/
  callByPath : Path → String → List Value → Action R I G (Option Value)
  /-- Calls a function value. -/
  callFunction : Value → List Value → Action R I G (Option Value)
  evalExpr : TypedExpr → Action R I G (Option Value)

/-- What code is meant to be run. -/
inductive Selection where
  | program
  | macros
  deriving DecidableEq, Repr, Inhabited

end HaxeMacro
