import HaxeMacro.Evaluator.Runtime
import HaxeMacro.Program.Reference

/-! # The engine

The engine holds the runtime and the macros that it has resolved. It outlives compilations: one
engine serves many of them, one request after the other.

A runtime is known by its generation: the first one that is created has generation 1, and every new
one a higher number. A fatal failure poisons its handle, and a poisoned runtime is not used again.
-/

namespace HaxeMacro

structure RuntimeHandle where
  generation : Nat
  poisoned : Bool
  deriving DecidableEq, Repr

namespace RuntimeHandle

def new (generation : Nat) : RuntimeHandle := ⟨generation, false⟩

def poison (h : RuntimeHandle) : RuntimeHandle := { h with poisoned := true }

def text (h : RuntimeHandle) : String :=
  "RuntimeHandle \x7b generation: " ++ toString h.generation ++ ", poisoned: " ++
    (if h.poisoned then "true" else "false") ++ " \x7d"

end RuntimeHandle

structure EngineStats where
  contextsCreated : Nat
  runtimesCreated : Nat
  bootstraps : Nat
  reuses : Nat
  invalidations : Nat
  calls : Nat
  deriving DecidableEq, Repr

structure Binding where
  params : List TyParam
  ret : Ty
  classPath : Path
  field : String
  module : Path

structure BindingCache where
  bindings : Entries Reference Binding
  hits : Nat
  misses : Nat

namespace BindingCache

def empty : BindingCache := ⟨[], 0, 0⟩

/-- Counts a question for a macro. -/
def count (c : BindingCache) (found : Bool) : BindingCache :=
  if found then { c with hits := c.hits + 1 } else { c with misses := c.misses + 1 }

def insert (c : BindingCache) (r : Reference) (b : Binding) : BindingCache :=
  { c with bindings := Entries.set c.bindings r b }

def clear (c : BindingCache) : BindingCache := { c with bindings := [] }

def dropModules (c : BindingCache) (modules : List Path) : BindingCache :=
  { c with bindings := c.bindings.filter fun e => e.2.module ∉ modules }

end BindingCache

structure LiveRuntime (R : Type) where
  handle : RuntimeHandle
  state : R

structure Engine (R : Type) where
  runtime : Option (LiveRuntime R)
  selection : Selection
  cache : BindingCache
  generation : Nat
  stats : EngineStats

namespace Engine

variable {R : Type}

def new : Engine R := ⟨none, .program, .empty, 0, ⟨0, 0, 0, 0, 0, 0⟩⟩

/-- The generation of the runtime that is held, if there is one. -/
def runtimeGeneration (e : Engine R) : Option Nat := e.runtime.map (·.handle.generation)

def isLive (e : Engine R) : Bool := e.runtime.any fun r => !r.handle.poisoned

def resetCache (e : Engine R) : Engine R := { e with cache := e.cache.clear }

/-- Marks the runtime as unusable and forgets all macros. -/
def invalidate (e : Engine R) : Engine R :=
  { e with
    runtime := e.runtime.map fun r => { r with handle := r.handle.poison }
    selection := .program
    cache := e.cache.clear
    stats := { e.stats with invalidations := e.stats.invalidations + 1 } }

end Engine

/-! ## Operations -/

/-- The engine together with the compilation that it works for. -/
structure EngineState (R I G : Type) where
  engine : Engine R
  compilation : Compilation I
  world : World G

/-- An operation of the engine. -/
abbrev EngineM (R I G α : Type) := ExceptT Fault (StateM (EngineState R I G)) α

namespace EngineM

variable {R I G α : Type}

def fail (e : MacroError) : EngineM R I G α := throw (.error e)

def ofResult (result : Except MacroError α) : EngineM R I G α :=
  match result with
  | .ok a => pure a
  | .error e => fail e

def modifyEngine (f : Engine R → Engine R) : EngineM R I G Unit :=
  modify fun s => { s with engine := f s.engine }

def modifyStats (f : EngineStats → EngineStats) : EngineM R I G Unit :=
  modifyEngine fun e => { e with stats := f e.stats }

def modifyCompilation (f : Compilation I → Compilation I) : EngineM R I G Unit :=
  modify fun s => { s with compilation := f s.compilation }

def modifyShared (f : Shared → Shared) : EngineM R I G Unit :=
  modifyCompilation (·.mapShared f)

/-! ## Type checkers -/

def checkPrimary (op : Checking I G α) : EngineM R I G (Except TypingError α) := do
  let s ← get
  let (result, primary, world) := s.compilation.primary.check op s.world
  set { s with world, compilation := { s.compilation with primary } }
  return result

def noMacroContext : MacroError := .fatal "Macro context is not available" .null

def checkMacros (op : Checking I G α) : EngineM R I G (Except TypingError α) := do
  let s ← get
  match s.compilation.macros with
  | none => fail noMacroContext
  | some macros =>
    let (result, macros, world) := macros.check op s.world
    set { s with world, compilation := { s.compilation with macros := some macros } }
    return result

def setMacroDisplay (t : Typer I G) (display : Bool) : EngineM R I G Unit := do
  let s ← get
  match s.compilation.macros with
  | none => fail noMacroContext
  | some macros =>
    let (macros, world) := macros.setDisplay t display s.world
    set { s with world, compilation := { s.compilation with macros := some macros } }

def orFail (result : Except TypingError α) : EngineM R I G α :=
  match result with
  | .ok a => pure a
  | .error e => fail e.toMacroError

/-! ## Selection and invalidation -/

/-- Selects macro code for an operation, and goes back to what was selected before, however the
operation ends. -/
def withMacroSelection (op : EngineM R I G α) : EngineM R I G α := fun s =>
  let previous := s.engine.selection
  let (result, t) := op.run { s with engine := { s.engine with selection := .macros } }
  (result, { t with engine := { t.engine with selection := previous } })

/-- Gives up the runtime and the context for macros; the next request makes both anew. -/
def invalidate : EngineM R I G Unit :=
  modify fun s =>
    { s with engine := s.engine.invalidate, compilation := { s.compilation with macros := none } }

/-! ## Running code -/

/-- The session of a call that begins, and the engine during the call. -/
def beginCall (s : EngineState R I G) (name : String) (pos : Position) :
    Engine R × Session I G :=
  ({ s.engine with selection := .macros },
    ⟨s.compilation.mapReporter (·.enter name), s.world, pos, name⟩)

/-- The state after a call: the macro is left, and what was selected before is selected again. -/
def endCall (s : EngineState R I G) (during : Engine R) (live : LiveRuntime R) (runtime : R)
    (session : Session I G) : EngineState R I G where
  engine := { during with
    runtime := some { live with state := runtime }
    selection := s.engine.selection
    stats := { during.stats with calls := during.stats.calls + 1 } }
  compilation := session.compilation.mapReporter (·.leave)
  world := session.world

/-- Runs an action of the runtime for the macro `name`. An exception that is not caught becomes an
error with a report, and a fatal failure invalidates the engine. -/
def withRuntime (name : String) (pos : Position) (action : Action R I G α) : EngineM R I G α := do
  let s ← get
  match s.engine.runtime with
  | none => fail (.fatal "No live macro runtime" pos)
  | some live =>
    if live.handle.poisoned then fail (.fatal "No live macro runtime" pos)
    else
      let (during, session) := beginCall s name pos
      let (result, runtime, session) := action.run (live.state, session)
      set (endCall s during live runtime session)
      match result with
      | .ok a => return a
      | .error (.exception payload) =>
        fail (exceptionError s.compilation.primary.config.macros.dump name payload pos)
      | .error (.fatal message) => do
        invalidate
        fail (.fatal message pos)
      | .error (.stopped stop) => throw (.stopped stop)

end EngineM

end HaxeMacro
