import HaxeMacro.Engine.Flush

/-! # The context for macros

It is made when the first macro is needed, together with a runtime: one that served a compilation
before, or a new one.
-/

namespace HaxeMacro

namespace EngineM

variable {R I G : Type} (t : Typer I G) (rt : Runtime R I G)

/-! ## Runtimes -/

def bootstrapModules : List Path := [⟨["haxe", "macro"], "Expr"⟩, ⟨["haxe", "macro"], "Type"⟩]

def bootstrap : EngineM R I G Unit := do
  bootstrapModules.forM fun path => do
    let _ ← orFail (← checkMacros (t.loadModule path .null))
  modifyStats fun stats => { stats with bootstraps := stats.bootstraps + 1 }
  let _ ← flush t

def reuseRuntime (live : LiveRuntime R) : EngineM R I G Unit := do
  let s ← get
  let ((), state, session) := rt.reuse.run (live.state, ⟨s.compilation, s.world, .null, "<reuse>"⟩)
  set { s with
    engine := { s.engine with
      runtime := some { live with state }
      stats := { s.engine.stats with reuses := s.engine.stats.reuses + 1 } }
    compilation := session.compilation
    world := session.world }

/-- Makes a runtime. Until it is ready the engine has none. -/
def createRuntime : EngineM R I G Unit := do
  modifyEngine fun e => { e with
    runtime := none
    generation := e.generation + 1
    stats := { e.stats with runtimesCreated := e.stats.runtimesCreated + 1 } }
  let generation := (← get).engine.generation
  bootstrap t
  let s ← get
  let (result, state, session) :=
    rt.init.run (rt.create generation, ⟨s.compilation, s.world, .null, "<init>"⟩)
  set { s with compilation := session.compilation, world := session.world }
  match result with
  | .ok () => modifyEngine fun e => { e with runtime := some ⟨.new generation, state⟩ }
  | .error (.stopped stop) => throw (.stopped stop)
  | .error f => fail (.fatal ("Macro runtime initialization failed: " ++ f.text) .null)

/-- Takes the runtime of an earlier compilation if it may be used, and makes one otherwise. -/
def acquireRuntime : EngineM R I G Unit := do
  let s ← get
  match s.engine.runtime with
  | some live =>
    if s.compilation.primary.config.macros.reuseRuntime && !live.handle.poisoned then
      reuseRuntime rt live
    else createRuntime t rt
  | none => createRuntime t rt

/-! ## Contexts -/

/-- Makes the context for macros and gives it a runtime. A context without one is not kept. -/
def createContext : EngineM R I G Unit := do
  let s ← get
  let (macros, world) := s.compilation.primary.forkForMacros t s.world
  set { s with
    world
    compilation :=
      { s.compilation.mapReporter (·.intercept) with macros := some macros } }
  modifyStats fun stats => { stats with contextsCreated := stats.contextsCreated + 1 }
  tryCatch (acquireRuntime t rt) fun fault => do
    modifyCompilation fun c => { c with macros := none }
    throw fault

/-- The context for macros, which is made if there is none. It works for the module that is being
compiled. -/
def macroContext : EngineM R I G (Scope I) := do
  if (← get).compilation.macros.isNone then createContext t rt
  let s ← get
  match s.compilation.macros with
  | none => fail noMacroContext
  | some macros =>
    let macros := { macros with module := s.compilation.primary.module }
    modifyCompilation fun c => { c with macros := some macros }
    return macros

end EngineM

end HaxeMacro
