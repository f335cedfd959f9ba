import HaxeMacro.Call.Basic
import HaxeMacro.Call.Init
import HaxeMacro.Codec.Encode
import HaxeMacro.Engine.Resolve
import HaxeMacro.Fragment.Traversal
import HaxeMacro.Value.Constant

/-! # Calling macros

A call resolves its macro, checks what the macro returns, hands over the arguments as values, runs
the macro and reads the result as a fragment.
-/

namespace HaxeMacro

/-- How an argument is handed to its parameter. -/
inductive ArgClass where
  | expression
  | closure
  | evaluated
  deriving DecidableEq, Repr

/-- Parameters that take expressions and values accept anything that is written. -/
def ArgClass.widen (p : TyParam) : ArgClass → TyParam
  | closure => p
  | expression | evaluated => { p with type := .dynamic }

def Expr.asArgument (e : Expr) : Value := Encode.expr e.normalizeQuotes

namespace EngineM

variable {R I G : Type} (t : Typer I G) (rt : Runtime R I G)

/-! ## The return type -/

def contractError (b : Binding) (expected : String) (pos : Position) : MacroError :=
  .typing ("Macro " ++ b.classPath.text ++ "." ++ b.field ++ " should return " ++ expected ++
    " but returns " ++ b.ret.text) pos

def returns (b : Binding) (expected : Ty) : EngineM R I G Bool := do
  match ← checkMacros (t.unify b.ret expected) with
  | .ok () => return true
  | .error _ => return false

/-- Checks the return type of a macro for the mode of its call. -/
def checkContract (mode : CallMode) (b : Binding) (pos : Position) : EngineM R I G Unit := do
  match mode with
  | .display => return
  | .expr =>
    if !(← returns t b .macroExpr) then fail (contractError b "haxe.macro.Expr" pos)
  | .build =>
    if !(← returns t b (.array .macroField)) then
      fail (contractError b "Array<haxe.macro.Field>" pos)
  | .type =>
    if !(← returns t b .macroType) then
      if !(← returns t b .macroComplexType) then
        fail (contractError b "haxe.macro.Type or haxe.macro.ComplexType" pos)

/-! ## Arguments -/

def classify (p : TyParam) : EngineM R I G ArgClass := do
  match ← checkMacros (t.unify .macroExpr p.type) with
  | .ok () => return .expression
  | .error _ => return if p.type.isFunction then .closure else .evaluated

def evaluate (name : String) (pos : Position) (e : TypedExpr) : EngineM R I G Value := do
  return (← withRuntime name pos (rt.evalExpr e)).getD .null

def marshalArg (name : String) (pos : Position) (args : List Expr) (p : TyParam)
    (kind : ArgClass) : MatchedArg → EngineM R I G Value
  | .omitted => return .null
  | .supplied index typed =>
    let given := (args[index]?).getD typed.expr
    match kind with
    | .expression => return given.asArgument
    | .closure => do
      let _ ← macroContext t rt
      let typed ← orFail (← checkMacros (t.typeExpr given (some p.type)))
      evaluate rt name pos typed
    | .evaluated => evaluate rt name pos typed

/-- The values for all parameters; a parameter with nothing matched takes null. -/
def marshalArgs (name : String) (pos : Position) (args : List Expr) :
    List (TyParam × ArgClass) → List MatchedArg → EngineM R I G (List Value)
  | [], _ => return []
  | (p, kind) :: ps, matched => do
    let v ← marshalArg t rt name pos args p kind (matched.head?.getD .omitted)
    return v :: (← marshalArgs name pos args ps matched.tail)

/-- The collected arguments take the place of the last value. -/
def placeRest (rest : Option (List Expr)) (values : List Value) : List Value :=
  match rest, values with
  | none, values => values
  | some _, [] => []
  | some rest, v :: vs => (v :: vs).dropLast ++ [.array (rest.map Expr.asArgument)]

/-! ## The result -/

def readResult (mode : CallMode) (v : Value) (pos : Position) : EngineM R I G CallResult := do
  let folder := (← get).compilation.primary.config.macros.dump
  match mode with
  | .expr =>
    let e ← ofResult (v.decodeExpr.orReport folder v "Expr" pos)
    return .expr (e.fillPositions pos)
  | .build =>
    if v.isNull then return .keepFields
    return .fields (← ofResult (v.decodeFields.orReport folder v "Array<Field>" pos))
  | .type =>
    if v.isNull then
      let s ← get
      let (type, primary, world) := s.compilation.primary.use t.freshType s.world
      set { s with world, compilation := { s.compilation with primary } }
      return .type type
    match v.decodeComplexType, v.decodeType with
    | .ok written, _ => return .type (← orFail (← checkPrimary (t.loadComplexType written pos)))
    | .faulty .., .ok type => return .type type
    | .faulty first others, .faulty .. =>
      let _ ← ofResult
        ((Decoded.faulty first others : Decoded ComplexType).orReport folder v "ComplexType" pos)
      return .nothing
  | .display => return .displayOnly

/-! ## Calls -/

def call (mode : CallMode) (r : Reference) (b : Binding) (args : List Expr) (pos : Position) :
    EngineM R I G CallResult := do
  let params := restAsArray b.params
  let split := CallArgs.split params args pos
  let _ ← macroContext t rt
  let classes ← params.mapM (classify t)
  let widened := List.zipWith ArgClass.widen params classes
  let matched ← orFail (← checkPrimary (t.matchArgs split.fixed widened pos))
  let values ← marshalArgs t rt r.text pos split.fixed (params.zip classes) matched
  let values := placeRest split.rest values
  match ← withRuntime r.text pos (rt.callByPath b.classPath b.field values) with
  | none => return .nothing
  | some v => readResult t mode v pos

/-- Calls a macro. Macro code cannot call one. -/
def invoke (side : Side) (mode : CallMode) (r : Reference) (args : List Expr) (pos : Position) :
    EngineM R I G CallResult :=
  match side with
  | .macros => return .macroInMacro
  | .program => withMacroSelection do
    let b ← loadMacro t rt .program r (mode == .display) pos
    let _ ← macroContext t rt
    checkContract t mode b pos
    if mode = .display then return .displayOnly
    call t rt mode r b args pos

/-- Runs an initial macro that is given as text; its arguments are constants. -/
def runInit (text : String) : EngineM R I G (Option Value) := do
  match Expr.parse text .null with
  | .error e => fail e.toMacroError
  | .ok e =>
    let (r, args) ← ofResult e.initCall
    match args.mapM Expr.constant with
    | .error fault => throw fault
    | .ok values => withMacroSelection do
      let b ← loadMacro t rt .program r false e.pos
      withRuntime r.text e.pos (rt.callByPath b.classPath b.field values)

def callbackName : Value → String
  | .function name _ => name
  | v => v.text

/-- Calls the callbacks for an occasion, in the order of their registration, and counts them. -/
def runHooks (kind : HookKind) (args : List Value) : EngineM R I G Nat := do
  let callbacks := (← get).compilation.shared.hooks.get kind
  if callbacks.isEmpty then return 0
  let _ ← macroContext t rt
  callbacks.forM fun callback => do
    let _ ← withRuntime (callbackName callback) .null (rt.callFunction callback args)
  return callbacks.length

end EngineM

end HaxeMacro
