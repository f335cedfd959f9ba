import HaxeMacro.Position

/-! # Messages

What a compilation tells its user, and which macro it comes from.
-/

namespace HaxeMacro

inductive Severity where
  | error | warning | info
  deriving DecidableEq, Repr, Inhabited

/-- A message about a position; `origin` names the macro that was running. -/
structure Message where
  severity : Severity
  content : String
  pos : Position
  origin : Option String
  deriving DecidableEq, Repr

def Message.text (m : Message) : String :=
  match m.origin with
  | none => m.content
  | some name => m.content ++ " (from macro " ++ name ++ ")"

/-- The messages of a compilation, the latest one first, and the macros that are running. -/
structure Reporter where
  latestFirst : List Message
  /-- Whether messages are marked with the running macro. -/
  intercepting : Bool
  active : List String
  deriving DecidableEq, Repr

namespace Reporter

def empty : Reporter := ⟨[], false, []⟩

/-- The messages in the order of their arrival. -/
def messages (r : Reporter) : List Message := r.latestFirst.reverse

def intercept (r : Reporter) : Reporter := { r with intercepting := true }

def enter (r : Reporter) (name : String) : Reporter := { r with active := name :: r.active }

def leave (r : Reporter) : Reporter := { r with active := r.active.tail }

def origin (r : Reporter) : Option String := if r.intercepting then r.active.head? else none

def push (r : Reporter) (m : Message) : Reporter := { r with latestFirst := m :: r.latestFirst }

def report (r : Reporter) (severity : Severity) (content : String) (pos : Position) : Reporter :=
  r.push ⟨severity, content, pos, r.origin⟩

def hasErrors (r : Reporter) : Bool := r.latestFirst.any (·.severity == .error)

end Reporter

end HaxeMacro
