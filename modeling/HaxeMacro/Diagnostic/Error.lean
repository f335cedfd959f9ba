import HaxeMacro.Diagnostic.Message
import HaxeMacro.Parser.Entry

/-! # Errors of macro calls

What can go wrong while macros are loaded, called and flushed, how it is worded, and the code under
which it is listed.
-/

namespace HaxeMacro

/-- A file with the details of an error. The time at which it was written follows its title. -/
structure Report where
  path : String
  title : String
  body : String
  deriving DecidableEq, Repr

def Report.text (r : Report) (time : String) : String :=
  r.title ++ " (" ++ time ++ ")\n" ++ r.body

/-- An error of a macro call. -/
inductive MacroError where
  | resolution (message : String) (pos : Position)
  | argumentType (message : String) (pos : Position)
  | decode (summary : String) (report : Option Report) (pos : Position)
  | exception (message macroName : String) (report : Option Report) (pos : Position)
  /-- The operation needs something that is missing here. -/
  | unsupported (operation : String) (pos : Position)
  /-- An error after which the runtime cannot go on. -/
  | fatal (message : String) (pos : Position)
  | typing (message : String) (pos : Position)
  deriving DecidableEq, Repr

namespace MacroError

def pos : MacroError → Position
  | resolution _ pos | argumentType _ pos | decode _ _ pos | exception _ _ _ pos
  | unsupported _ pos | fatal _ pos | typing _ pos => pos

def isFatal : MacroError → Bool
  | fatal .. => true
  | _ => false

/-- Errors of macro calls are listed under E07. -/
def code : MacroError → String
  | resolution .. => "E0701"
  | argumentType .. => "E0702"
  | decode .. => "E0703"
  | exception .. => "E0704"
  | unsupported .. => "E0705"
  | fatal .. => "E0706"
  | typing .. => "E0707"

/-- A reference to a report, if one was written. -/
def seeReport : Option Report → String
  | none => ""
  | some report => " (see " ++ report.path ++ ")"

def message : MacroError → String
  | resolution message _ | argumentType message _ | fatal message _ | typing message _ => message
  | decode summary report _ => summary ++ seeReport report
  | exception message _ report _ => "Uncaught exception " ++ message ++ seeReport report
  | unsupported operation _ => operation ++ " is not supported in this context"

def toMessage (e : MacroError) : Message where
  severity := .error
  content := "[" ++ e.code ++ "] " ++ e.message
  pos := e.pos
  origin := match e with
    | exception _ macroName _ _ => some macroName
    | _ => none

end MacroError

/-! ## Errors of the type checker -/

inductive TypingErrorKind where
  | moduleNotFound | typeNotFound | unify | arity | other
  deriving DecidableEq, Repr, Inhabited

structure TypingError where
  kind : TypingErrorKind
  message : String
  pos : Position
  deriving DecidableEq, Repr

def TypingError.toMacroError (e : TypingError) : MacroError :=
  match e.kind with
  | .moduleNotFound | .typeNotFound => .resolution e.message e.pos
  | .unify | .arity => .argumentType e.message e.pos
  | .other => .typing e.message e.pos

def ParseError.toMacroError (e : ParseError) : MacroError := .typing e.message e.pos

/-! ## Ends without a result -/

/-- Why a computation was given up. -/
inductive Stop where
  /-- A whole number left the range of 64 bits where it may not. -/
  | overflow
  | outOfFuel
  deriving DecidableEq, Repr

inductive Fault where
  | error (e : MacroError)
  | stopped (s : Stop)
  deriving DecidableEq, Repr

end HaxeMacro
