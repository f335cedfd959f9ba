import HaxeMacro.Compilation.Typer
import HaxeMacro.Config.Basic

/-! # Compilation contexts

One environment in which code is typed, with its settings and its own instance of the type checker.
-/

namespace HaxeMacro

structure TypingState where
  module : Path
  class? : Option Path
  /-- The fields of the class that is being built. -/
  buildFields : Option (List Field)
  locals : Entries String Ty
  imports : List Path
  usings : List Path
  expected : Option Ty

/-- What makes compiled code differ, as it goes into the hash: the definitions in the order of their
names, and the parts of the path of the standard library. -/
structure Signature where
  defines : List (String × String)
  stdRoot : List String
  deriving DecidableEq, Repr

namespace Signature

def le (a b : String × String) : Bool :=
  match compareText a.1 b.1 with
  | .gt => false
  | _ => true

/-- The parts of a path. Empty ones do not count, nor does `.` but in front. -/
def pathParts (path : String) : List String :=
  match splitAt '/' path.toList with
  | [] => []
  | first :: others => ((first :: others.filter (· != ['.'])).filter (· != [])).map String.ofList

def ofConfig (c : Config) : Signature := ⟨c.defines.mergeSort le, pathParts c.stdRoot⟩

end Signature

structure Scope (I : Type) where
  config : Config
  typer : I
  module : Path
  typing : Option TypingState
  signature : Option Signature
  /-- Whether the signature is settled, whatever is defined later. -/
  locked : Bool

namespace Scope

variable {I G α : Type}

def new (config : Config) (typer : I) (module : Path) : Scope I :=
  ⟨config, typer, module, none, none, false⟩

/-! ## Definitions and the signature -/

def define (s : Scope I) (name value : String) : Scope I :=
  { s with
    config := { s.config with defines := Entries.set s.config.defines name value }
    signature := if s.locked then s.signature else none }

def define? (s : Scope I) (name : String) : Option String := Entries.get? s.config.defines name

/-- The signature, which is computed if it is not known. -/
def currentSignature (s : Scope I) : Signature := s.signature.getD (.ofConfig s.config)

def sign (s : Scope I) : Scope I := { s with signature := some s.currentSignature }

/-- Settles the signature. -/
def lock (s : Scope I) : Scope I := { s.sign with locked := true }

/-! ## Typing -/

def check (op : Checking I G α) (s : Scope I) (w : World G) :
    Except TypingError α × Scope I × World G :=
  let (result, typer, w) := op.run (s.typer, w)
  (result, { s with typer }, w)

def use (op : StateM (I × World G) α) (s : Scope I) (w : World G) : α × Scope I × World G :=
  let (result, typer, w) := op.run (s.typer, w)
  (result, { s with typer }, w)

def beginTyping (state : TypingState) (s : Scope I) : Scope I := { s with typing := some state }

def endTyping (s : Scope I) : Scope I := { s with typing := none }

def setDisplay (t : Typer I G) (display : Bool) (s : Scope I) (w : World G) :
    Scope I × World G :=
  let (_, s, w) := s.use (t.setDisplay display) w
  ({ s with config := { s.config with display } }, w)

/-- The context for the macros of a context, its signature settled. -/
def forkForMacros (t : Typer I G) (s : Scope I) (w : World G) : Scope I × World G :=
  let config := s.config.forMacros
  let macros := Scope.new config (t.fork s.typer) s.module
  let (_, macros, w) := macros.use (t.setDisplay config.display) w
  (macros.lock, w)

end Scope

end HaxeMacro
