import HaxeMacro.Engine.Context

/-! # Resolving macros

A reference leads to a static method of a class. What was resolved once is remembered.
-/

namespace HaxeMacro

namespace Reference

def signature (r : Reference) (m : ModuleDef) (pos : Position) :
    Except MacroError (List TyParam × Ty) :=
  match m.class? r.type with
  | none => .error (.resolution ("Class not found : " ++ r.type.text) pos)
  | some c =>
    match c.static? r.method with
    | none =>
      if (c.field? r.method).isSome then
        .error (.resolution ("Method " ++ r.text ++ " is not static") pos)
      else
        .error (.resolution
          ("Method " ++ r.method ++ " not found on class " ++ r.type.text) pos)
    | some member =>
      if !member.isMethod then .error (.resolution (r.text ++ " is not a method") pos)
      else
        match member.type with
        | .func params ret => .ok (params, ret)
        | type =>
          .error (.resolution
            (r.text ++ " has type " ++ type.text ++ " which is not a function") pos)

end Reference

namespace EngineM

variable {R I G : Type} (t : Typer I G) (rt : Runtime R I G)

def signatureIn (r : Reference) (id : ModuleId) (pos : Position) :
    EngineM R I G (List TyParam × Ty) := do
  match (← get).world.module? id with
  | none => fail (.resolution ("Class not found : " ++ r.type.text) pos)
  | some m => ofResult (r.signature m pos)

/-- Loads the module of a macro; while it is loaded for a query, the context says so. -/
def loadMacroModule (r : Reference) (display : Bool) (pos : Position) :
    EngineM R I G (Except TypingError ModuleId) := do
  if display then
    let previous := (← get).compilation.macros.any (·.config.display)
    setMacroDisplay t true
    let loaded ← checkMacros (t.loadModule r.module pos)
    setMacroDisplay t previous
    return loaded
  else checkMacros (t.loadModule r.module pos)

/-- Resolves a macro that is not remembered. The signature is read again when all typing that is
pending is completed. -/
def resolveAnew (r : Reference) (display : Bool) (pos : Position) : EngineM R I G Binding := do
  let id ← orFail (← loadMacroModule t r display pos)
  let _ ← signatureIn r id pos
  orFail (← checkMacros t.finalize)
  let (params, ret) ← signatureIn r id pos
  let binding : Binding := ⟨params, ret, r.type, r.method, r.module⟩
  modifyEngine fun e => { e with cache := e.cache.insert r binding }
  return binding

def resolve (r : Reference) (display : Bool) (pos : Position) : EngineM R I G Binding := do
  let known := Entries.get? (← get).engine.cache.bindings r
  modifyEngine fun e => { e with cache := e.cache.count known.isSome }
  match known with
  | some binding => return binding
  | none => resolveAnew t r display pos

/-- Resolves a macro for a call, and notes that the calling module depends on that of the macro.
What is new is handed over, unless macro code itself asks. -/
def loadMacro (side : Side) (r : Reference) (display : Bool) (pos : Position) :
    EngineM R I G Binding :=
  withMacroSelection do
    let known := Entries.has (← get).engine.cache.bindings r
    if side = .program then
      let _ ← macroContext t rt
    let binding ← resolve t r display pos
    modifyCompilation fun c =>
      c.mapShared (·.record (c.moduleOf side) binding.module .load)
    if !known && side = .program then
      let _ ← flush t
    return binding

end EngineM

end HaxeMacro
