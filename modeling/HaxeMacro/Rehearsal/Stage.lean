import HaxeMacro.Engine.Invoke
import HaxeMacro.Rehearsal.Macros

/-! # Stages

An engine with the small type checker and scripted macros, and the compilations that it serves. One
compilation is the current one; the others rest.
-/

namespace HaxeMacro

abbrev Scene (α : Type) := EngineM NativeState Checker Host α

structure Stage where
  engine : Engine NativeState
  world : World Host
  name : String
  compilation : Compilation Checker
  resting : Entries String (Compilation Checker)
  /-- The signatures that were seen, each once, in the order in which they appeared. -/
  signatures : List Signature

namespace Stage

def new (registry : Registry) (name : String) (config : Config) (module : Path) : Stage :=
  ⟨.new, ⟨[], ⟨registry, []⟩⟩, name, .new config .new module, [], []⟩

def evaluationSteps : Nat := 1000000

/-- The runtime that runs scripts. -/
def runtime (scripts : Entries Reference Script) (failures : NativeRuntime.InitFailures) :
    Runtime NativeState Checker Host :=
  NativeRuntime.make (.ofScripts scripts) failures evaluationSteps

/-! ## Compilations -/

def rest (s : Stage) : Entries String (Compilation Checker) :=
  Entries.set s.resting s.name s.compilation

def enter (name : String) (config : Config) (module : Path) (s : Stage) : Stage :=
  { s with name, compilation := .new config .new module, resting := s.rest }

def resume (name : String) (s : Stage) : Stage :=
  match Entries.get? s.rest name with
  | none => s
  | some compilation => { s with name, compilation, resting := s.rest }

/-! ## Operations -/

def perform {α : Type} (op : Scene α) (s : Stage) : Except Fault α × Stage :=
  let (result, t) := op.run ⟨s.engine, s.compilation, s.world⟩
  (result, { s with engine := t.engine, compilation := t.compilation, world := t.world })

def takeTrace (s : Stage) : List TraceEntry × Stage :=
  let (trace, world) := Host.takeTrace s.world
  (trace, { s with world })

/-- The number of a signature, by its first appearance. -/
def number (signature : Signature) (s : Stage) : Nat × Stage :=
  let i := s.signatures.idxOf signature
  (i, if i < s.signatures.length then s else { s with signatures := s.signatures ++ [signature] })

def sign (s : Stage) : Nat × Stage :=
  { s with compilation := s.compilation.mapPrimary .sign }.number
    s.compilation.primary.currentSignature

def lock (s : Stage) : Nat × Stage :=
  { s with compilation := s.compilation.mapPrimary .lock }.number
    s.compilation.primary.currentSignature

def macroSignature (s : Stage) : Option Nat × Stage :=
  match s.compilation.macros with
  | none => (none, s)
  | some macros =>
    let (i, s) := s.number macros.currentSignature
    (some i, { s with compilation := { s.compilation with macros := some macros.sign } })

/-- The side from which nested requests come: that of the program if there is no context for
macros. -/
def nestedSide (s : Stage) : Side := if s.compilation.macros.isSome then .macros else .program

def published (path : Path) (s : Stage) : Option ModuleDef :=
  (Entries.get? s.compilation.shared.modules path).bind s.world.module?

end Stage

namespace Scene

def select (selection : Selection) : Scene Unit :=
  EngineM.modifyEngine fun e => { e with selection }

/-- Says whether a query is answered, and tells what was said before. -/
def setDisplay (display : Bool) : Scene Bool := do
  let s ← get
  let (primary, world) := s.compilation.primary.setDisplay Checker.typer display s.world
  set { s with world, compilation := { s.compilation with primary } }
  return s.compilation.primary.config.display

/-- Loads a module into the context for macros. -/
def preload (rt : Runtime NativeState Checker Host) (path : Path) : Scene Unit := do
  let _ ← EngineM.macroContext Checker.typer rt
  let _ ← EngineM.orFail (← EngineM.checkMacros (Checker.typer.loadModule path .null))

end Scene

/-! ## Rehearsing a runtime alone -/

/-- A runtime and the session in which it is called. -/
structure Rehearsal where
  runtime : NativeState
  session : Session Checker Host

namespace Rehearsal

def new (module : Path) (pos : Position) (macroName : String) : Rehearsal :=
  let settings : CheckerSettings := ⟨[], [], false, none⟩
  ⟨.new 0, ⟨.new .default .new module, ⟨[], ⟨.new [] settings, []⟩⟩, pos, macroName⟩⟩

def perform {α : Type} (action : Action NativeState Checker Host α) (r : Rehearsal) :
    Except RuntimeFailure α × Rehearsal :=
  let (result, runtime, session) := action.run (r.runtime, r.session)
  (result, ⟨runtime, session⟩)

def use (action : StateM (NativeState × Session Checker Host) Unit) (r : Rehearsal) : Rehearsal :=
  let ((), runtime, session) := action.run (r.runtime, r.session)
  ⟨runtime, session⟩

def takeTrace (r : Rehearsal) : List TraceEntry × Rehearsal :=
  let (trace, world) := Host.takeTrace r.session.world
  (trace, { r with session := { r.session with world } })

end Rehearsal

end HaxeMacro
