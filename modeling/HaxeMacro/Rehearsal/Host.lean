import HaxeMacro.Rehearsal.Script

/-! # What small type checkers share

The modules that can be loaded, the failures that are staged, and counts and logs of what the type
checkers were asked.
-/

namespace HaxeMacro

/-- What goes wrong or otherwise than usual. -/
structure CheckerSettings where
  loadErrors : Entries Path (TypingErrorKind × String)
  /-- Failures of completions by their numbers. -/
  finalizeErrors : Entries Nat TypingError
  reverseArgs : Bool
  /-- How many matched arguments are kept. -/
  truncateArgs : Option Nat

structure Registry where
  templates : Entries Path ModuleDef
  settings : CheckerSettings
  requests : Entries Path Nat
  loads : Entries Path Nat
  unifications : List (Ty × Ty)
  finalizeCalls : Nat
  displays : List Bool

namespace Registry

def new (templates : Entries Path ModuleDef) (settings : CheckerSettings) : Registry :=
  ⟨templates, settings, [], [], [], 0, []⟩

def increment (counts : Entries Path Nat) (path : Path) : Entries Path Nat :=
  Entries.set counts path ((Entries.get? counts path).getD 0 + 1)

def sorted (counts : Entries Path Nat) : Entries Path Nat :=
  counts.mergeSort fun a b => Path.le a.1 b.1

/-- The modules that macros exchange fragments with, in their smallest form. -/
def bootstrapTemplates : Entries Path ModuleDef :=
  let module (name : String) (type : Ty) : Path × ModuleDef :=
    let path : Path := ⟨["haxe", "macro"], name⟩
    (path, ⟨path, [.synonym path type]⟩)
  [module "Expr" (.anon []), module "Type" .dynamic]

end Registry

structure Host where
  registry : Registry
  trace : List TraceEntry

namespace Host

def mapRegistry (f : Registry → Registry) (host : Host) : Host :=
  { host with registry := f host.registry }

def record (entry : TraceEntry) (host : Host) : Host := { host with trace := host.trace ++ [entry] }

/-- The trace, and the world in which a new one begins. -/
def takeTrace (w : World Host) : List TraceEntry × World Host :=
  (w.host.trace, { w with host := { w.host with trace := [] } })

end Host

end HaxeMacro
