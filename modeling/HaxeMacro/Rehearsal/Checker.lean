import HaxeMacro.Compilation.Typer
import HaxeMacro.Fragment.Printer
import HaxeMacro.Rehearsal.Host

/-! # A small type checker

It knows types by their names only, accepts nearly every expression, and takes modules from
templates. That is enough to run the engine.
-/

namespace HaxeMacro

structure Checker where
  loaded : Entries Path ModuleId
  /-- The modules that were made and not yet taken. -/
  produced : List ModuleId
  monos : Nat

namespace Checker

def new : Checker := ⟨[], [], 0⟩

abbrev Check (α : Type) := Checking Checker Host α

def registry : Check Registry := do return (← get).2.host.registry

def mapRegistry (f : Registry → Registry) : StateM (Checker × World Host) Unit :=
  modify fun (checker, world) => (checker, { world with host := world.host.mapRegistry f })

def typingError {α : Type} (kind : TypingErrorKind) (message : String) (pos : Position) : Check α :=
  throw ⟨kind, message, pos⟩

/-! ## Modules -/

/-- A new module, which is loaded from now on. -/
def addModule (path : Path) (m : ModuleDef) : Check ModuleId := do
  let (checker, world) ← get
  let (id, world) := world.add m
  set ({ checker with
    loaded := Entries.set checker.loaded path id
    produced := checker.produced ++ [id] }, world)
  return id

/-- Makes a module from its template. -/
def loadTemplate (path : Path) (pos : Position) : Check ModuleId := do
  match Entries.get? (← registry).templates path with
  | none => typingError .moduleNotFound ("Module " ++ path.text ++ " not found") pos
  | some m =>
    mapRegistry fun r => { r with loads := Registry.increment r.loads path }
    addModule path m

def loadModule (path : Path) (pos : Position) : Check ModuleId := do
  mapRegistry fun r => { r with requests := Registry.increment r.requests path }
  match Entries.get? (← registry).settings.loadErrors path with
  | some (kind, message) => typingError kind message pos
  | none =>
    match Entries.get? (← get).1.loaded path with
    | some id => return id
    | none => loadTemplate path pos

/-! ## Types -/

def basicType? : String → Option Ty
  | "Int" => some .int
  | "Float" => some .float
  | "Bool" => some .bool
  | "Void" => some .void
  | "String" => some .string
  | "Dynamic" => some .dynamic
  | _ => none

def beginsWith (word text : String) : Bool := word.toList.isPrefixOf text.toList

mutual

/-- The type that a type path names. -/
def loadInstance (pos : Position) : TypePath → Except TypingError Ty
  | ⟨pack, name, args, sub⟩ =>
    if beginsWith "Missing" name then
      .error ⟨.typeNotFound, "Type not found : " ++ TypePath.text ⟨pack, name, args, sub⟩, pos⟩
    else
      match basicType? name with
      | some type => .ok type
      | none => do
        let types ← loadArgs pos args
        return .inst (Path.ofTypePath ⟨pack, name, args, sub⟩) types

def loadArgs (pos : Position) : List TypeArg → Except TypingError (List Ty)
  | [] => .ok []
  | .type t :: args => do
    let type ← loadType pos t
    return type :: (← loadArgs pos args)
  | .expr _ :: args => do return .dynamic :: (← loadArgs pos args)

/-- The type that is written. -/
def loadType (pos : Position) : ComplexType → Except TypingError Ty
  | .path p => loadInstance pos p
  | .paren t | .optional t | .named _ t => loadType pos t
  | .function .. | .anonymous _ => .ok .dynamic

end

def loadComplexType (type : ComplexType) (pos : Position) : Check Ty :=
  match loadType pos type with
  | .ok t => pure t
  | .error e => throw e

/-- Whether a type fits every other one. -/
def isLoose : Ty → Bool
  | .dynamic | .mono _ => true
  | _ => false

/-- Whether the first type can stand where the second one is expected. -/
def fits (actual expected : Ty) : Bool :=
  actual == expected || isLoose actual || isLoose expected ||
    match actual, expected with
    | .func ps _, .func qs _ => ps.length == qs.length
    | _, _ => false

def unify (actual expected : Ty) : Check Unit := do
  mapRegistry fun r => { r with unifications := r.unifications ++ [(actual, expected)] }
  if !fits actual expected then
    typingError .unify (actual.text ++ " should be " ++ expected.text) .null

/-! ## Expressions -/

/-- Every expression but one has the type that is expected. -/
def typeExpr (e : Expr) (expected : Option Ty) : Check TypedExpr :=
  if e.ident? = some "untypable" then typingError .unify "untypable expression" e.pos
  else return ⟨e, expected.getD .dynamic⟩

/-- The number of the argument for a parameter, if there is one. -/
def argIndex? (reverse : Bool) (count i : Nat) : Option Nat :=
  if i < count then some (if reverse then count - 1 - i else i) else none

/-- What is matched with the parameter number `i`. -/
def matchArg (reverse : Bool) (args : List Expr) (pos : Position) (i : Nat) (p : TyParam) :
    Check MatchedArg :=
  match (argIndex? reverse args.length i).bind fun k => (args[k]?).map fun e => (k, e) with
  | some (k, e) =>
    if p.optional && e.ident? = some "_" then return .omitted
    else return .supplied k (← typeExpr e (some p.type))
  | none =>
    if p.optional then return .omitted
    else typingError .arity ("Not enough arguments, expected " ++ p.name) pos

def matchFrom (reverse : Bool) (args : List Expr) (pos : Position) :
    Nat → List TyParam → Check (List MatchedArg)
  | _, [] => return []
  | i, p :: ps => do
    let first ← matchArg reverse args pos i p
    return first :: (← matchFrom reverse args pos (i + 1) ps)

def matchArgs (args : List Expr) (params : List TyParam) (pos : Position) :
    Check (List MatchedArg) := do
  if args.length > params.length then typingError .arity "Too many arguments" pos
  let settings := (← registry).settings
  let matched ← matchFrom settings.reverseArgs args pos 0 params
  return match settings.truncateArgs with
    | none => matched
    | some n => matched.take n

/-! ## Definitions -/

def classOf (module : Path) (d : TypeDefinition) (isInterface : Bool) : ClassDef :=
  { ClassDef.empty ⟨d.pack, d.name⟩ module with
    pos := d.pos
    annotations := d.annotations
    params := d.params.map (·.name)
    isExtern := d.isExtern
    isInterface }

def define (module : Path) (pos : Position) (d : TypeDefinition) :
    Except TypingError ModuleType :=
  let path : Path := ⟨d.pack, d.name⟩
  match d.kind with
  | .classType _ _ isInterface => .ok (.classType (classOf module d isInterface))
  | .enum => .ok (.enum path)
  | .synonym t => (loadType pos t).map (.synonym path)
  | .record | .abstractType _ => .ok (.abstract path)

def defineModule (path : Path) (definitions : List TypeDefinition) (pos : Position) :
    Check ModuleId :=
  if path.name = "Forbidden" then typingError .other ("cannot define " ++ path.text) pos
  else
    match definitions.mapM (define path pos) with
    | .error e => throw e
    | .ok types => addModule path ⟨path, types⟩

/-! ## The type checker -/

def finalize : Check Unit := do
  mapRegistry fun r => { r with finalizeCalls := r.finalizeCalls + 1 }
  let r ← registry
  match Entries.get? r.settings.finalizeErrors r.finalizeCalls with
  | none => return
  | some e => throw e

def freshType : StateM (Checker × World Host) Ty :=
  modifyGet fun (checker, world) =>
    let n := checker.monos + 1
    (.mono (UInt32.ofNat n), { checker with monos := n }, world)

def takeProduced : StateM (Checker × World Host) (List ModuleId) :=
  modifyGet fun (checker, world) => (checker.produced, { checker with produced := [] }, world)

def setDisplay (display : Bool) : StateM (Checker × World Host) Unit :=
  mapRegistry fun r => { r with displays := r.displays ++ [display] }

def typer : Typer Checker Host where
  fork _ := new
  loadModule := loadModule
  loadComplexType := loadComplexType
  unify := unify
  typeExpr := typeExpr
  matchArgs := matchArgs
  freshType := freshType
  defineModule := defineModule
  finalize := finalize
  takeProduced := takeProduced
  setDisplay := setDisplay

end Checker

end HaxeMacro
