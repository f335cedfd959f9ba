import HaxeMacro.Fragment.Traversal
import HaxeMacro.Program.Class

/-! # Filters

A filter changes a class that macros produced and counts its changes. A filter that fails leaves the
class as far as it came.

Two filters replace single expressions: casts of casts become one cast, and whatever is thrown
becomes an exception.
-/

namespace HaxeMacro

structure FilterContext where
  module : Path
  /-- The class before any filter changed it. -/
  snapshot : Option Snapshot

structure FilterError where
  filter : String
  reason : String
  pos : Position
  deriving DecidableEq, Repr

def FilterError.message (e : FilterError) : String := e.filter ++ ": " ++ e.reason

/-- The class that a filter leaves, and the number of its changes. -/
abbrev Filtered := ClassDef × Except FilterError Nat

def Filtered.done (r : ClassDef × Nat) : Filtered := (r.1, .ok r.2)

namespace Filter

/-! ## Casts -/

/-- `cast(cast e, T)` without its inner cast, which has no type. -/
def mergeCasts : Expr → Option Expr
  | ⟨.cast ⟨.cast inner none, _⟩ type, pos⟩ => some ⟨.cast inner type, pos⟩
  | _ => none

def abstractCast (c : ClassDef) : Filtered :=
  .done (c.countBodies (·.mapUpCounting mergeCasts))

/-! ## Exceptions -/

def endsWith (text ending : String) : Bool := ending.toList.isSuffixOf text.toList

/-- Whether an expression makes an exception, by its looks: the names of exception classes end with
`Exception` or `Error`, and `thrown` is the function that makes an exception of anything. -/
def isException (e : Expr) : Bool :=
  match e.kind with
  | .new path _ => endsWith path.name "Exception" || endsWith path.name "Error"
  | .call ⟨.field _ name, _⟩ _ => name == "thrown"
  | _ => false

def thrown (pos : Position) : Expr :=
  ⟨.field ⟨.field (.ident "haxe" pos) "Exception", pos⟩ "thrown", pos⟩

/-- `throw e`, where `e` is no exception yet, as `throw haxe.Exception.thrown(e)`. -/
def wrapThrown : Expr → Option Expr
  | ⟨.throw value, pos⟩ =>
    if isException value then none
    else some ⟨.throw ⟨.call (thrown pos) [value], pos⟩, pos⟩
  | _ => none

def throwing (c : ClassDef) : Filtered :=
  .done (c.countBodies (·.mapUpCounting wrapThrown))

end Filter

end HaxeMacro
