import HaxeMacro.Compilation.Scope
import HaxeMacro.Compilation.Shared

/-! # Compilations

The context of a program, the context of its macros once a macro was needed, and what both share.
-/

namespace HaxeMacro

structure Compilation (I : Type) where
  primary : Scope I
  macros : Option (Scope I)
  shared : Shared

/-- Which context a request comes from. -/
inductive Side where
  | program | macros
  deriving DecidableEq, Repr

namespace Compilation

variable {I : Type}

def new (config : Config) (typer : I) (module : Path) : Compilation I :=
  ⟨.new config typer module, none, .empty⟩

def mapShared (f : Shared → Shared) (c : Compilation I) : Compilation I :=
  { c with shared := f c.shared }

def mapPrimary (f : Scope I → Scope I) (c : Compilation I) : Compilation I :=
  { c with primary := f c.primary }

def mapReporter (f : Reporter → Reporter) (c : Compilation I) : Compilation I :=
  c.mapShared fun s => { s with reporter := f s.reporter }

def report (severity : Severity) (content : String) (pos : Position) (c : Compilation I) :
    Compilation I :=
  c.mapReporter (·.report severity content pos)

def moduleOf (c : Compilation I) : Side → Path
  | .program => c.primary.module
  | .macros => (c.macros.map (·.module)).getD c.primary.module

end Compilation

end HaxeMacro
