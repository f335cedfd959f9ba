import HaxeMacro.Diagnostic.Report
import HaxeMacro.Entries

/-! # Settings of a compilation

The settings of one compilation context. Macro code is compiled with settings of its own, which
follow from those of the program that calls it.
-/

namespace HaxeMacro

structure MacroSettings where
  stdRoot : String
  dump : DumpFolder
  /-- Whether a runtime serves more than one compilation. -/
  reuseRuntime : Bool
  deriving DecidableEq, Repr

abbrev Defines := Entries String String

structure Config where
  /-- Whether a query about the program is answered, and nothing generated. -/
  display : Bool
  /-- Whether every field is typed, and not only those that are used. -/
  fullTyping : Bool
  stdRoot : String
  classPaths : List String
  defines : Defines
  macros : MacroSettings
  deriving DecidableEq, Repr

namespace MacroSettings

def default : MacroSettings := ⟨"std/macro", ⟨"dump", true⟩, true⟩

end MacroSettings

namespace Config

def default : Config := ⟨false, false, "std", [], [], .default⟩

def forMacros (c : Config) : Config :=
  { c with
    stdRoot := c.macros.stdRoot
    display := false
    fullTyping := true
    defines := Entries.set c.defines "macro" "1" }

end Config

end HaxeMacro
