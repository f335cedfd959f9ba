import HaxeMacro.Codec.Decode
import HaxeMacro.Diagnostic.Error
import HaxeMacro.Value.Json

/-! # Reports

A value that does not decode, and an exception that leaves a macro with a text, are described in a
file, and the error refers to that file.
-/

namespace HaxeMacro

structure DumpFolder where
  path : String
  isWritable : Bool
  deriving DecidableEq, Repr

namespace DumpFolder

def filePath (folder : DumpFolder) (file : String) : String :=
  if folder.path = "" then file
  else if folder.path.toList.getLast? = some '/' then folder.path ++ file
  else folder.path ++ "/" ++ file

/-- The report that is written to the folder; there is none if the folder cannot be written. -/
def write (folder : DumpFolder) (file title body : String) : Option Report :=
  if folder.isWritable then some ⟨folder.filePath file, title, body⟩ else none

end DumpFolder

namespace Report

/-- Mismatches with their numbers, each on a line of its own. -/
def numbered : Nat → List Mismatch → String
  | _, [] => ""
  | i, m :: ms => toString i ++ ". " ++ m.text ++ "\n" ++ numbered (i + 1) ms

def decodeBody (v : Value) (expected : String) (mismatches : List Mismatch) : String :=
  "Expected: " ++ expected ++ "\n\nMismatches:\n" ++ numbered 1 mismatches ++
    "\nValue:\n" ++ v.json.pretty 0 ++ "\n"

def decodeTitle : String := "Macro value decoding error"

/-- What a decoding error says itself: its first mismatch, and how many more there are. -/
def summary (expected : String) (first : Mismatch) (others : List Mismatch) : String :=
  "Invalid " ++ expected ++ " value: " ++ first.text ++
    (if others.isEmpty then "" else " (and " ++ toString others.length ++ " more)")

def exceptionTitle (macroName : String) : String := "Uncaught exception in macro " ++ macroName

end Report

def Decoded.orReport {α : Type} (folder : DumpFolder) (v : Value) (expected : String)
    (pos : Position) : Decoded α → Except MacroError α
  | .ok a => .ok a
  | .faulty first others =>
    .error (.decode (Report.summary expected first others)
      (folder.write "decoding_error.txt" Report.decodeTitle
        (Report.decodeBody v expected (first :: others))) pos)

/-- The error for an exception that left a macro. A payload that is no text is reported as a value
that does not decode. -/
def exceptionError (folder : DumpFolder) (macroName : String) (payload : Value) (pos : Position) :
    MacroError :=
  match payload.decodeString.orReport folder payload "String" pos with
  | .error e => e
  | .ok message =>
    .exception message macroName
      (folder.write "macro_exception.txt" (Report.exceptionTitle macroName)
        ("\n" ++ message ++ "\n")) pos

end HaxeMacro
