import HaxeMacro.Engine.Basic
import HaxeMacro.Filter.Pipeline

/-! # Handing over modules

The modules that are made while macros run stay with the macros until a flush completes them,
filters their classes and publishes them. A failure gives up all of them.
-/

namespace HaxeMacro

/-! ## Filtering modules -/

namespace FilterPipeline

/-- What the filters know of a class: the class as it comes, or as it was when it came for the
first time. -/
def contextOf (module : Path) (c : ClassDef) : FilterContext :=
  ⟨module, if c.filtered then c.restore else some c.snapshot⟩

def flushError (c : ClassDef) (e : FilterError) : MacroError :=
  .fatal ("Filter failed on " ++ c.path.text ++ ": " ++ e.message) e.pos

def runOnTypes (p : FilterPipeline) (module : Path) :
    List ModuleType → List ModuleType × Except MacroError Unit
  | [] => ([], .ok ())
  | .classType c :: rest =>
    match p.run (contextOf module c) c with
    | (c, .error e) => (.classType c :: rest, .error (flushError c e))
    | (c, .ok _) =>
      let (rest, result) := runOnTypes p module rest
      (.classType c :: rest, result)
  | t :: rest =>
    let (rest, result) := runOnTypes p module rest
    (t :: rest, result)

def runOnModule (p : FilterPipeline) (m : ModuleDef) : ModuleDef × Except MacroError Unit :=
  let (types, result) := p.runOnTypes m.path m.types
  ({ m with types }, result)

def runOnModules {G : Type} (p : FilterPipeline) :
    List ModuleId → World G → World G × Except MacroError Unit
  | [], w => (w, .ok ())
  | id :: ids, w =>
    match w.module? id with
    | none => runOnModules p ids w
    | some m =>
      match p.runOnModule m with
      | (m, .error e) => (w.put id m, .error e)
      | (m, .ok _) => runOnModules p ids (w.put id m)

end FilterPipeline

/-! ## Flushes -/

namespace World

def publish {G : Type} (w : World G) (ids : List ModuleId) (modules : Entries Path ModuleId) :
    Entries Path ModuleId :=
  ids.foldl (fun published id =>
    match w.module? id with
    | none => published
    | some m => Entries.set published m.path id) modules

end World

namespace EngineM

variable {R I G : Type} (t : Typer I G)

def takeProduced : EngineM R I G (List ModuleId) := do
  let s ← get
  match s.compilation.macros with
  | none => fail noMacroContext
  | some macros =>
    let (ids, macros, world) := macros.use t.takeProduced s.world
    set { s with world, compilation := { s.compilation with macros := some macros } }
    return ids

/-- Completes and filters the modules that the type checker for macros has made. -/
def flushModules : EngineM R I G (List ModuleId) := do
  match ← checkMacros t.finalize with
  | .error e => fail (.fatal ("Macro context finalization failed: " ++ e.message) e.pos)
  | .ok () =>
    let produced ← takeProduced t
    modifyShared (·.commit)
    let s ← get
    let (world, result) := FilterPipeline.default.runOnModules produced s.world
    set { s with world }
    ofResult result
    return produced

def whileFlushing {α : Type} (op : EngineM R I G α) : EngineM R I G (Except Fault α) := fun s =>
  let mark (flushing : Bool) (s : EngineState R I G) : EngineState R I G :=
    { s with compilation := s.compilation.mapShared fun shared => { shared with flushing } }
  let (result, s) := op.run (mark true s)
  (.ok result, mark false s)

/-- Publishes what macros have made, and counts the modules. A flush during a flush does nothing. -/
def flush : EngineM R I G Nat := do
  let s ← get
  if s.compilation.shared.flushing || s.compilation.macros.isNone then return 0
  match ← whileFlushing (flushModules t) with
  | .ok produced =>
    let s ← get
    modifyShared fun shared => { shared with modules := s.world.publish produced shared.modules }
    return produced.length
  | .error fault =>
    invalidate
    throw fault

/-! ## Forgetting modules -/

/-- A module and the modules that depend on it, each once. -/
def affectedBy (graph : DependencyGraph) (module : Path) : List Path :=
  module :: (graph.dependents module).filter (· != module)

/-- Forgets a module and all modules that depend on it, and counts them. -/
def invalidateModule (module : Path) : EngineM R I G Nat := do
  let affected := affectedBy (← get).compilation.shared.graph module
  modifyShared fun shared => affected.foldl Shared.forget shared
  modifyEngine fun e => { e with cache := e.cache.dropModules affected }
  return affected.length

/-- Takes the classes of a published module back to their snapshots, and counts them; `none` if the
module is not published. -/
def restoreModule (module : Path) : EngineM R I G (Option Nat) := do
  let s ← get
  match Entries.get? s.compilation.shared.modules module with
  | none => return none
  | some id =>
    match s.world.module? id with
    | none => return none
    | some m =>
      set { s with world := s.world.put id m.restored }
      return some m.restorable

end EngineM

end HaxeMacro
