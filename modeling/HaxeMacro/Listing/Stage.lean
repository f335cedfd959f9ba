import HaxeMacro.Listing.Diagnostic
import HaxeMacro.Rehearsal.Stage

/-! # Listing stages

What an engine, its compilations and the small type checker have done.
-/

namespace HaxeMacro

namespace Listing

open JsonTree (text texts flag number)

/-- Whether a name is defined, and its value. -/
def definition (value : Option String) : JsonTree := .array [flag value.isSome, .option text value]

/-! ## Traces -/

def answer : Answer → JsonTree
  | .nothing => .null
  | .call pos macroName => .array [position pos, text macroName]
  | .expr e => expr e
  | .metadata m => metadata m
  | .complexType t => complexType t
  | .type t => .option type t
  | .module m => module m
  | .definition v => definition v
  | .cache c => c.json
  | .fields fs => fields fs
  | .path p => .option path p
  | .paths ps => paths ps
  | .locals vars => .list (fun v => .array [text v.1, type v.2]) vars
  | .result r => callResult r
  | .values vs => .array (values vs)

def traceEntry (t : TraceEntry) : JsonTree :=
  match t.answer with
  | .ok a => .array [text t.name, answer a]
  | .error e => .array [text t.name, error e]

/-- The field for a trace; there is none for an empty one. -/
def traceField : List TraceEntry → List (String × JsonTree)
  | [] => []
  | entry :: entries => [("trace", .list traceEntry (entry :: entries))]

/-! ## Compilations -/

def defines (ds : Defines) : JsonTree := .list (fun d => texts [d.1, d.2]) ds

def config (c : Config) : JsonTree := .object [
  ("display", flag c.display), ("full", flag c.fullTyping), ("std_root", text c.stdRoot),
  ("class_paths", texts c.classPaths), ("defines", defines c.defines),
  ("macro_std_root", text c.macros.stdRoot), ("dump_dir", text c.macros.dump.path),
  ("reuse", flag c.macros.reuseRuntime)]

def scope (isMacro hasMacros : Bool) (s : Scope Checker) : JsonTree := .object [
  ("is_macro", flag isMacro), ("display", flag s.config.display),
  ("full", flag s.config.fullTyping), ("std_root", text s.config.stdRoot),
  ("locked", flag s.locked), ("module", path s.module), ("typing", flag s.typing.isSome),
  ("has_macros", flag hasMacros), ("defines", defines s.config.defines)]

def pendingEdge (e : PendingEdge) : JsonTree :=
  texts [e.source.text, e.target.text, e.reason.text]

def hooks (h : Hooks) : JsonTree :=
  .list (fun kind => .array (values (h.get kind)))
    [.afterInit, .afterTyping, .onGenerate, .afterGenerate]

def shared (s : Shared) : JsonTree := .object [
  ("metadata", .list (fun m => .array [text m.1, text m.2.doc, texts m.2.targets]) s.metadata),
  ("user_defines", .list (fun d => texts [d.1, d.2]) s.userDefines),
  ("modules", paths s.modules.keys), ("pending", .list pendingEdge s.pending),
  ("hooks", hooks s.hooks), ("cache", s.cache.json), ("edges", number s.graph.edgeCount),
  ("flushing", flag s.flushing), ("intercepting", flag s.reporter.intercepting),
  ("has_errors", flag s.reporter.hasErrors)]

/-- The dependencies of a module in both directions. -/
def dependencies (g : DependencyGraph) (module : Path) : JsonTree := .object [
  ("dependents", paths (g.dependents module)),
  ("direct", .list (fun p => .array [path p, .option (fun r => text r.text) (g.reason? module p)])
    (g.direct module))]

/-! ## Engines -/

def binding (b : Binding) : JsonTree := .object [
  ("params", .array (tyParams b.params)), ("ret", type b.ret), ("class", path b.classPath),
  ("field", text b.field), ("module", path b.module)]

def stats (s : EngineStats) : JsonTree :=
  .list number
    [s.contextsCreated, s.runtimesCreated, s.bootstraps, s.reuses, s.invalidations, s.calls]

def bindingCache (c : BindingCache) : JsonTree :=
  .array [number c.bindings.length, number c.hits, number c.misses, flag c.bindings.isEmpty]

def selection : Selection → JsonTree
  | .program => text "Primary"
  | .macros => text "Macro"

/-- The state of the engine, and whether the current compilation has a context for macros. -/
def stage (s : Stage) : JsonTree :=
  .array [stats s.engine.stats, bindingCache s.engine.cache, selection s.engine.selection,
    .option number s.engine.runtimeGeneration, flag s.engine.isLive,
    flag s.compilation.macros.isSome]

def counts (c : Entries Path Nat) : JsonTree :=
  .list (fun e => .array [path e.1, number e.2]) (Registry.sorted c)

def registry (r : Registry) : JsonTree := .object [
  ("loads", counts r.loads), ("requests", counts r.requests),
  ("unifications", .list (fun u => texts [u.1.text, u.2.text]) r.unifications),
  ("finalize_calls", number r.finalizeCalls), ("display", .list flag r.displays)]

/-! ## Runtimes -/

/-- The end of a call: a value or none. -/
def outcome : Option Value → List (String × JsonTree)
  | some v => [("ok", value v)]
  | none => [("none", flag true)]

def failure : RuntimeFailure → List (String × JsonTree)
  | .exception payload =>
    [("exception", value payload), ("message", text (RuntimeFailure.exception payload).text)]
  | f => [("fatal", text f.text)]

def nativeState (s : NativeState) : JsonTree :=
  .array [number s.closures.length, number s.reuseCount, flag s.initialized]

end Listing

end HaxeMacro
