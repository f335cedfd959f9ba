import HaxeMacro.Call.Init
import HaxeMacro.Evaluator.Env
import HaxeMacro.Evaluator.Runtime
import HaxeMacro.Fragment.Printer
import HaxeMacro.Value.Constant

/-! # Evaluating expressions

Literals, operators, variables, conditions, loops and function literals are evaluated here; the
methods that macro code can call are given by their paths. A function literal becomes a closure,
which sees its parameters and no other variables.

`eval` takes a number of steps: it goes no deeper, and no loop runs longer.
-/

namespace HaxeMacro

abbrev NativeMethod (I G : Type) :=
  List Value → ExceptT RuntimeFailure (StateM (Session I G)) (Option Value)

abbrev Natives (I G : Type) := Entries Reference (NativeMethod I G)

/-- The name of the closure that a runtime makes as number `i`. -/
def closureName (i : UInt32) : String := "<anonymous#" ++ toString i ++ ">"

structure NativeState where
  generation : Nat
  /-- The function literals of its closures, by their names. -/
  closures : Entries String FunctionDef
  nextClosure : UInt32
  initialized : Bool
  reuseCount : Nat

namespace NativeState

def new (generation : Nat) : NativeState := ⟨generation, [], 0, false, 0⟩

/-- Makes a closure. A runtime that has no number left for the next one stops. -/
def addClosure (f : FunctionDef) (s : NativeState) : Except Stop (Value × NativeState) :=
  if s.nextClosure.toNat + 1 < UInt32.size then
    let name := closureName s.nextClosure
    .ok (.function name f.params.length,
      { s with
        closures := Entries.set s.closures name f
        nextClosure := s.nextClosure + 1 })
  else .error .overflow

end NativeState

/-- Ways in which an evaluation ends without a value. -/
inductive Signal where
  | ret (v : Value)
  | brk
  | cont
  | failure (f : RuntimeFailure)

structure EvalState (I G : Type) where
  env : Env
  runtime : NativeState
  session : Session I G

abbrev Eval (I G α : Type) := ExceptT Signal (StateM (EvalState I G)) α

namespace Eval

variable {I G α : Type}

/-! ## Exceptions and functions -/

def raise (message : String) : Eval I G α := throw (.failure (.ofText message))

def ofResult (result : Except Fault α) : Eval I G α :=
  match result with
  | .ok a => pure a
  | .error fault => throw (.failure (.ofFault fault))

/-- The end of a function body: `return` gives its value, and no loop is left from here. -/
def endOfBody : Except Signal Value → Except Signal Value
  | .ok v => .ok v
  | .error (.ret v) => .ok v
  | .error .brk => .error (.failure (.ofText "Break outside loop"))
  | .error .cont => .error (.failure (.ofText "Continue outside loop"))
  | .error (.failure f) => .error (.failure f)

def inBody (env : Env) (body : Eval I G Value) : Eval I G Value := fun s =>
  let (result, t) := body.run { s with env }
  (endOfBody result, { t with env := s.env })

/-! ## Variables -/

def lookUp (name : String) : Eval I G Value := do
  match (← get).env.get? name with
  | some v => return v
  | none => raise ("Unknown identifier : " ++ name)

def declare (name : String) (v : Value) : Eval I G Unit :=
  modify fun s => { s with env := s.env.declare name v }

def assign (name : String) (v : Value) : Eval I G Unit := do
  let s ← get
  match s.env.assign? name v with
  | some env => set { s with env }
  | none => raise ("Unknown identifier : " ++ name)

/-- Evaluates in a scope of its own, which is left however the evaluation ends. -/
def inScope (body : Eval I G α) : Eval I G α := fun s =>
  let (result, t) := body.run { s with env := s.env.enter }
  (result, { t with env := t.env.leave })

/-! ## Parts of expressions -/

def identifier (name : String) : Eval I G Value :=
  match Constant.identValue name with
  | some v => pure v
  | none => lookUp name

def applyPrefix (op : UnaryOp) (v : Value) : Eval I G Value :=
  match op, v with
  | .neg, .int i => ofResult ((Value.negate i).map .int)
  | .neg, .float x => pure (.float (-x))
  | .not, v => pure (.bool !v.isTruthy)
  | .negBits, .int i => pure (.int (~~~i))
  | op, v => raise ("Cannot apply " ++ op.symbol ++ " to " ++ v.typeName)

/-- The operator that an assignment applies first. -/
def assignedBy : BinaryOp → Option (Option BinaryOp)
  | .assign => some none
  | .assignOp op => some (some op)
  | _ => none

/-- Assigns to an expression the value of another one; `op` is applied first, to the value that
the variable has when the right side is evaluated. -/
def assignTo (op : Option BinaryOp) (target : Expr) (right : Eval I G Value) :
    Eval I G Value := do
  match target.ident? with
  | none => raise ("Cannot assign to " ++ target.text)
  | some name =>
    let v ← right
    let v ← match op with
      | none => pure v
      | some op => do ofResult (Value.applyBinary op (← lookUp name) v target.pos)
    assign name v
    return v

/-- The loop after its first test: the body runs, and then the test decides. -/
def iterate (body test : Eval I G Value) : (steps : Nat) → Eval I G Value
  | 0 => throw (.failure (.stopped .outOfFuel))
  | steps + 1 => fun s =>
    match body.run s with
    | (.ok _, s) | (.error .cont, s) =>
      match test.run s with
      | (.ok v, s) => if v.isTruthy then iterate body test steps s else (.ok .null, s)
      | (.error signal, s) => (.error signal, s)
    | (.error .brk, s) => (.ok .null, s)
    | (.error signal, s) => (.error signal, s)

def sequence (run : Expr → Eval I G Value) : List Expr → Value → Eval I G Value
  | [], last => pure last
  | e :: es, _ => do sequence run es (← run e)

def makeClosure (f : FunctionDef) : Eval I G Value := fun s =>
  match s.runtime.addClosure f with
  | .ok (v, runtime) => (.ok v, { s with runtime })
  | .error stop => (.error (.failure (.stopped stop)), s)

/-- The method that a name stands for. Its parts may be empty. -/
def methodOf? (name : String) : Option Reference :=
  (splitLast '.' name.toList).map fun (path, method) =>
    ⟨Path.ofText (String.ofList path), String.ofList method⟩

def nativeReference? (natives : Natives I G) (e : Expr) : Option String := do
  let text := String.intercalate "." (← e.dotted?)
  let r ← methodOf? text
  if Entries.has natives r then some text else none

/-! ## Calls -/

def callNative (natives : Natives I G) (r : Reference) (args : List Value) :
    Eval I G (Option Value) := fun s =>
  match Entries.get? natives r with
  | none => (.error (.failure (.ofText ("Method " ++ r.text ++ " not found"))), s)
  | some method =>
    let (result, session) := (method args).run s.session
    (result.mapError .failure, { s with session })

/-- Declares the parameters of a closure. A default value sees no variables. -/
def bindParams (run : Expr → Eval I G Value) : List Param → List Value → Env → Eval I G Env
  | [], _, env => pure env
  | p :: ps, v :: vs, env => bindParams run ps vs (env.declare p.name v)
  | p :: ps, [], env => do
    let v ← match p.default with
      | none => pure .null
      | some e => inBody .empty (run e)
    bindParams run ps [] (env.declare p.name v)

/-- Calls a closure; one without a body gives no value. -/
def callClosure (run : Expr → Eval I G Value) (f : FunctionDef) (args : List Value) :
    Eval I G (Option Value) := do
  let env ← bindParams run f.params args .empty
  match f.body with
  | none => return none
  | some body => return some (← inBody env (run body))

def callFunction (natives : Natives I G) (run : Expr → Eval I G Value) (f : Value)
    (args : List Value) : Eval I G (Option Value) := do
  match f with
  | .function name _ =>
    match Entries.get? (← get).runtime.closures name with
    | some closure => callClosure run closure args
    | none =>
      match methodOf? name with
      | some r => callNative natives r args
      | none => raise ("Unknown function " ++ name)
  | v => raise (v.typeName ++ " is not a function")

/-! ## Expressions -/

/-- Evaluates an expression in at most `steps` steps. -/
def eval (natives : Natives I G) : (steps : Nat) → Expr → Eval I G Value
  | 0, _ => throw (.failure (.stopped .outOfFuel))
  | steps + 1, e =>
    let run := eval natives steps
    match e.kind with
    | .const (.ident name) => identifier name
    | .const _ => ofResult e.constant
    | .paren inner | .checkType inner _ | .cast inner _ | .annotated _ inner => run inner
    | .array items => do return .array (← items.mapM run)
    | .object fields => do
      return .ofFields (← fields.mapM fun f => do return (f.name, ← run f.value))
    | .unary op false operand => do applyPrefix op (← run operand)
    | .binary op left right =>
      match assignedBy op with
      | some inner => assignTo inner left (run right)
      | none => do
        let l ← run left
        let r ← run right
        ofResult (Value.applyBinary op l r e.pos)
    | .ternary test yes no | .cond test yes (some no) => do
      if (← run test).isTruthy then run yes else run no
    | .cond test yes none => do
      if (← run test).isTruthy then
        let _ ← run yes
      return .null
    | .loop test body testFirst => do
      let enters ← if testFirst then do pure (← run test).isTruthy else pure true
      if enters then iterate (run body) (run test) steps else return .null
    | .brk => throw .brk
    | .cont => throw .cont
    | .ret none => throw (.ret .null)
    | .ret (some value) => do throw (.ret (← run value))
    | .field inner name =>
      match nativeReference? natives e with
      | some text => return .function text 0
      | none => do
        match ← run inner with
        | .object fields => return Fields.get fields name
        | v => raise (v.typeName ++ " has no field " ++ name)
    | .function _ f => makeClosure f
    | .block items => inScope (sequence run items .null)
    | .vars vs => do
      vs.forM fun v => do
        let value ← match v.init with
          | none => pure Value.null
          | some init => run init
        declare v.name value
      return .null
    | .call callee args => do
      let f ← run callee
      let values ← args.mapM run
      return (← callFunction natives run f values).getD .null
    | .throw value => do throw (.failure (.exception (← run value)))
    | _ => raise ("Cannot evaluate " ++ e.text)

end Eval

end HaxeMacro
