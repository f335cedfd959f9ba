import HaxeMacro.Call.Basic
import HaxeMacro.Diagnostic.Error
import HaxeMacro.Listing.Program

/-! # Listing errors, messages and results -/

namespace HaxeMacro

namespace Listing

open JsonTree (text texts flag)

def parseErrorName : ParseError → String
  | .unexpected .. => "Unexpected"
  | .trailing .. => "TrailingInput"
  | .empty .. => "Empty"

def parseError (e : ParseError) : JsonTree := .object [
  ("error", text (parseErrorName e)), ("message", text e.message), ("pos", position e.pos)]

def errorName : MacroError → String
  | .resolution .. => "Resolution"
  | .argumentType .. => "ArgumentType"
  | .decode .. => "Decode"
  | .exception .. => "RuntimeException"
  | .unsupported .. => "Unsupported"
  | .fatal .. => "Fatal"
  | .typing .. => "Typing"

/-- What only some errors have; `report` lists a report. -/
def errorDetails (report : Report → JsonTree) : MacroError → List (String × JsonTree)
  | .decode _ r _ => [("report", .option report r)]
  | .exception _ macroName r _ => [("macro", text macroName), ("report", .option report r)]
  | _ => []

/-- An error, with its report as `report` lists it. -/
def errorWith (report : Report → JsonTree) (e : MacroError) : JsonTree := .object ([
  ("error", text (errorName e)), ("message", text e.message), ("code", text e.code),
  ("pos", position e.pos)] ++ errorDetails report e)

def error : MacroError → JsonTree := errorWith fun r => text (r.text "TIME")

def severity : Severity → JsonTree
  | .error => text "Error"
  | .warning => text "Warning"
  | .info => text "Info"

def message (m : Message) : JsonTree :=
  .array [severity m.severity, text m.content, position m.pos, .option text m.origin, text m.text]

def callResult : CallResult → JsonTree
  | .expr e => .array [text "Expr", text e.text, expr e]
  | .fields fs => .array [text "Fields", fields fs]
  | .type t => .array [text "Type", text t.text, type t]
  | .keepFields => texts ["KeepFields"]
  | .displayOnly => texts ["DisplayOnly"]
  | .macroInMacro => texts ["MacroInMacro"]
  | .nothing => texts ["Error"]

end Listing

end HaxeMacro
