import HaxeMacro.Program.Path
import HaxeMacro.Text.Character

/-! # References to macros

`pack.Class.method`. When the last part of the package starts with a capital letter it is a module,
and the class is one of the types in it.
-/

namespace HaxeMacro

/-- A macro by the path of its class and its name. -/
structure Reference where
  path : Path
  method : String
  deriving DecidableEq, Repr

namespace Reference

/-- Reads `pack.Class.method`; at least a class and a method are needed. -/
def ofText? (text : String) : Option Reference :=
  match splitLast '.' text.toList with
  | some (c :: cs, d :: ds) =>
    some ⟨Path.ofText (String.ofList (c :: cs)), String.ofList (d :: ds)⟩
  | _ => none

def text (r : Reference) : String := r.path.text ++ "." ++ r.method

/-- The last part of the package if it starts with a capital letter. -/
def moduleSegment? (r : Reference) : Option String :=
  match r.path.pack.getLast? with
  | none => none
  | some part =>
    match part.toList with
    | [] => none
    | c :: _ => if Text.isUpper c then some part else none

def module (r : Reference) : Path :=
  match r.moduleSegment? with
  | some name => ⟨r.path.pack.dropLast, name⟩
  | none => r.path

def type (r : Reference) : Path :=
  match r.moduleSegment? with
  | some _ => ⟨r.path.pack.dropLast, r.path.name⟩
  | none => r.path

end Reference

end HaxeMacro
