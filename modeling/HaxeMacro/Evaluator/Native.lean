import HaxeMacro.Evaluator.Eval

/-! # The native runtime

A runtime whose methods are given from outside, and which evaluates expressions itself.
-/

namespace HaxeMacro

namespace NativeRuntime

variable {I G α : Type}

/-- Failures of the first preparation, by the generations of the runtimes that they hit. -/
abbrev InitFailures := Entries Nat RuntimeFailure

def perform (action : Eval I G α) : Action NativeState I G α := fun (runtime, session) =>
  let (result, s) := action.run ⟨.empty, runtime, session⟩
  let result := match result with
    | .ok a => .ok a
    | .error (.failure f) => .error f
    -- The body of a function ends with no other signal.
    | .error _ => .error (.fatal "the evaluation was left")
  (result, s.runtime, s.session)

/-- Closures belong to the compilation that made them. -/
def forget (s : NativeState) : NativeState :=
  { s with closures := [], reuseCount := s.reuseCount + 1 }

/-- The runtime with the given methods; `steps` bounds the depth and the loops of evaluations. -/
def make (natives : Natives I G) (failures : InitFailures) (steps : Nat) :
    Runtime NativeState I G where
  create := .new
  init := fun (runtime, session) =>
    match Entries.get? failures runtime.generation with
    | some f => (.error f, runtime, session)
    | none => (.ok (), { runtime with initialized := true }, session)
  reuse := modify fun (runtime, session) => (forget runtime, session)
  callByPath path method args := perform (Eval.callNative natives ⟨path, method⟩ args)
  callFunction f args := perform (Eval.callFunction natives (Eval.eval natives steps) f args)
  evalExpr e := perform do
    return some (← Eval.inBody .empty (Eval.eval natives steps e.expr))

end NativeRuntime

end HaxeMacro
