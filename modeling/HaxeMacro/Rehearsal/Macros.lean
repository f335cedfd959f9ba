import HaxeMacro.Codec.Encode
import HaxeMacro.Evaluator.Native
import HaxeMacro.Rehearsal.Checker

/-! # Running scripts

A script becomes a method of the native runtime. An error of a query is thrown as a text, unless the
script asks in a way that passes it over.
-/

namespace HaxeMacro

abbrev Inquiry (α : Type) := Request Checker Host α

namespace Inquiry

/-- The position that is given, or else that of the call. -/
def here (pos : Option Position) : Inquiry Position := do return pos.getD (← get).pos

def readDefinition (v : Value) : Inquiry TypeDefinition := do
  let s ← get
  let folder := s.compilation.primary.config.macros.dump
  match v.decodeTypeDefinition.orReport folder v "TypeDefinition" s.pos with
  | .ok d => return d
  | .error e => throw e

def moduleAnswer (id : ModuleId) : Inquiry Answer := do
  match (← get).world.module? id with
  | some m => return .module m
  | none => return .nothing

def quietly (request : Inquiry Unit) : Inquiry Answer := do
  request
  return .nothing

end Inquiry

open Inquiry in
/-- The answer to a query in a call with the arguments `args`. -/
def Query.answer (args : List Value) : Query → Inquiry Answer
  | position => do
    let s ← get
    return .call s.pos s.macroName
  | parseExpr text pos => do return .expr (← Request.parseExpr text (← here pos))
  | parseMetadata text pos => do return .metadata (← Request.parseMetadata text (← here pos))
  | parseType text pos => do return .complexType (← Request.parseComplexType text (← here pos))
  | resolveType text pos => do
    let written ← Request.parseComplexType text .null
    return .type (← Request.resolveType Checker.typer written (← here pos))
  | defineType definition => do
    let d ← readDefinition (definition args)
    moduleAnswer (← Request.defineType Checker.typer d)
  | defineModule path definitions => do
    let ds ← definitions.mapM fun d => readDefinition (d args)
    moduleAnswer (← Request.defineModule Checker.typer path ds)
  | includeModule path => quietly (Request.includeModule Checker.typer path)
  | registerMetadata name doc targets => quietly (Request.registerMetadata name doc targets)
  | registerDefine name doc => quietly (Request.registerDefine name doc)
  | define name value => quietly (Request.define name value)
  | defined name => do return .definition (← Request.define? name)
  | addHook kind callback => quietly (Request.addHook kind (callback args))
  | cacheConfig => do return .cache (← Request.cacheConfig)
  | setCacheConfig config => quietly (Request.setCacheConfig config)
  | buildFields => do return .fields (← Request.buildFields)
  | localClass => do return .path (← Request.localClass)
  | localModule => do return .path (some (← Request.localModule))
  | localVars => do return .locals (← Request.localVars)
  | imports => do return .paths (← Request.localImports)
  | usings => do return .paths (← Request.localUsings)
  | expected => do return .type (← Request.expectedType)
  | fail text pos => do Request.fail text (← here pos)
  | warn text pos => do quietly (Request.report .warning text (← here pos))
  | inform text pos => do quietly (Request.report .info text (← here pos))
  | invokeMacro => do return .result (← Request.invokeMacro)
  | enterModule path => quietly (Request.enterModule path)

namespace Script

abbrev Run (α : Type) := ExceptT RuntimeFailure (StateM (Session Checker Host)) α

inductive Next where
  | next
  | stop (result : Option Value)

def trace (name : String) (answer : Except MacroError Answer) : Run Unit :=
  modify fun s => { s with world := { s.world with host := s.world.host.record ⟨name, answer⟩ } }

def request {α : Type} (r : Inquiry α) : Run (Except MacroError α) := fun s =>
  let (result, s) := r.run s
  (.ok result, s)

def orThrow {α : Type} : Except MacroError α → Run α
  | .ok a => pure a
  | .error e => throw (.ofText e.message)

def inquire (args : List Value) (q : Query) : Run (Except MacroError Answer) := do
  let answer ← request (q.answer args)
  trace q.name answer
  return answer

def step (args : List Value) : Instruction → Run Next
  | .give value => return .stop (some (value args))
  | .finish => return .stop none
  | .throw payload => throw (.exception (payload args))
  | .abort message => throw (.fatal message)
  | .giveExpr text pos => do
    let e ← orThrow (← request do Request.parseExpr text (← Inquiry.here pos))
    return .stop (some (Encode.expr e))
  | .giveType text pos => do
    let t ← orThrow (← request do Request.parseComplexType text (← Inquiry.here pos))
    return .stop (some (Encode.complexType t))
  | .giveFields => do
    let fs ← orThrow (← request Request.buildFields)
    return .stop (some (Encode.fields fs))
  | .traceArgs => do
    trace "args" (.ok (.values args))
    return .next
  | .ask q => do
    let _ ← orThrow (← inquire args q)
    return .next
  | .attempt q => do
    let _ ← inquire args q
    return .next

/-- Runs the instructions in order; without an end the script gives no value. -/
def run (args : List Value) : Script → Run (Option Value)
  | [] => return none
  | instruction :: rest => do
    match ← step args instruction with
    | .next => run args rest
    | .stop result => return result

end Script

def Natives.ofScripts (scripts : Entries Reference Script) : Natives Checker Host :=
  scripts.map fun e => (e.1, fun args => Script.run args e.2)

end HaxeMacro
