import HaxeMacro.Call.Basic
import HaxeMacro.Compilation.Basic

/-! # Requests of running macros

What macro code may ask of the compiler while it runs. Questions about the typing that is going on
fail when there is none.
-/

namespace HaxeMacro

/-- The call that a macro runs in. -/
structure Session (I G : Type) where
  compilation : Compilation I
  world : World G
  pos : Position
  macroName : String

/-- A request of a running macro. -/
abbrev Request (I G α : Type) := ExceptT MacroError (StateM (Session I G)) α

namespace Session

variable {I G : Type}

def mapCompilation (f : Compilation I → Compilation I) (s : Session I G) : Session I G :=
  { s with compilation := f s.compilation }

def mapShared (f : Shared → Shared) (s : Session I G) : Session I G :=
  s.mapCompilation (·.mapShared f)

/-- Notes that the module that is being compiled depends on `target`. -/
def record (target : Path) (reason : DependencyReason) (s : Session I G) : Session I G :=
  s.mapShared (·.record s.compilation.primary.module target reason)

end Session

namespace Request

variable {I G α : Type}

/-! ## Reading texts -/

def parsed (result : Except ParseError α) : Request I G α :=
  match result with
  | .ok a => pure a
  | .error e => throw e.toMacroError

def parseExpr (text : String) (pos : Position) : Request I G Expr := parsed (Expr.parse text pos)

def parseMetadata (text : String) (pos : Position) : Request I G Metadata :=
  parsed (Metadata.parse text pos)

def parseComplexType (text : String) (pos : Position) : Request I G ComplexType :=
  parsed (ComplexType.parse text pos)

/-! ## Types and modules -/

def check (op : Checking I G α) : Request I G α := do
  let s ← get
  let (result, primary, world) := s.compilation.primary.check op s.world
  set { s with world, compilation := { s.compilation with primary } }
  match result with
  | .ok a => return a
  | .error e => throw e.toMacroError

variable (t : Typer I G)

def resolveType (type : ComplexType) (pos : Position) : Request I G Ty :=
  check (t.loadComplexType type pos)

/-- Defines a module that is published at once; no module is defined twice. -/
def defineModule (path : Path) (definitions : List TypeDefinition) : Request I G ModuleId := do
  let s ← get
  if Entries.has s.compilation.shared.modules path then
    throw (.typing ("Module " ++ path.text ++ " is already defined") s.pos)
  let id ← check (t.defineModule path definitions s.pos)
  modify fun s =>
    (s.mapShared fun shared => { shared with modules := Entries.set shared.modules path id }).record
      path .define
  return id

def defineType (d : TypeDefinition) : Request I G ModuleId :=
  defineModule t ⟨d.pack, d.name⟩ [d]

/-- Publishes a module, unless it is published already. -/
def includeModule (path : Path) : Request I G Unit := do
  let s ← get
  let id ← check (t.loadModule path s.pos)
  modify fun s =>
    (s.mapShared fun shared =>
      if Entries.has shared.modules path then shared
      else { shared with modules := Entries.set shared.modules path id }).record path .includes

/-! ## Registries -/

def registerMetadata (name doc : String) (targets : List String) : Request I G Unit :=
  modify (·.mapShared fun shared =>
    { shared with metadata := Entries.set shared.metadata name ⟨doc, targets⟩ })

def registerDefine (name doc : String) : Request I G Unit :=
  modify (·.mapShared fun shared =>
    { shared with userDefines := Entries.set shared.userDefines name doc })

/-- Defines a name for the program; without a value it is defined as `1`. -/
def define (name : String) (value : Option String) : Request I G Unit :=
  modify (·.mapCompilation (·.mapPrimary (·.define name (value.getD "1"))))

def define? (name : String) : Request I G (Option String) := do
  return (← get).compilation.primary.define? name

def addHook (kind : HookKind) (callback : Value) : Request I G Unit := do
  match callback with
  | .function .. =>
    modify (·.mapShared fun shared => { shared with hooks := shared.hooks.add kind callback })
  | v => throw (.argumentType ("Expected a function callback, found " ++ v.typeName) (← get).pos)

def cacheConfig : Request I G CacheConfig := do return (← get).compilation.shared.cache

def setCacheConfig (c : CacheConfig) : Request I G Unit :=
  modify (·.mapShared fun shared => { shared with cache := c })

/-! ## The typing that is going on -/

/-- An answer that depends on the typing that is going on; `operation` names the question. -/
def typing (operation : String) (f : TypingState → Option α) : Request I G α := do
  let s ← get
  match s.compilation.primary.typing.bind f with
  | some a => return a
  | none => throw (.unsupported operation s.pos)

def buildFields : Request I G (List Field) := typing "getBuildFields" (·.buildFields)

def localClass : Request I G (Option Path) := typing "getLocalClass" fun t => some t.class?

def localModule : Request I G Path := typing "getLocalModule" fun t => some t.module

def localVars : Request I G (Entries String Ty) := typing "getLocalVars" fun t => some t.locals

def localImports : Request I G (List Path) := typing "getLocalImports" fun t => some t.imports

def localUsings : Request I G (List Path) := typing "getLocalUsing" fun t => some t.usings

def expectedType : Request I G (Option Ty) := typing "getExpectedType" fun t => some t.expected

/-! ## Messages and other macros -/

def report (severity : Severity) (content : String) (pos : Position) : Request I G Unit :=
  modify (·.mapCompilation (·.report severity content pos))

def fail (content : String) (pos : Position) : Request I G α := do
  report .error content pos
  throw (.typing content pos)

/-- Macro code cannot call a macro. -/
def invokeMacro : Request I G CallResult := pure .macroInMacro

/-- Goes on in another module. -/
def enterModule (path : Path) : Request I G Unit :=
  modify (·.mapCompilation (·.mapPrimary fun s => { s with module := path }))

end Request

end HaxeMacro
