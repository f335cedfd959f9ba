import HaxeMacro.Proofs.Engine.Steady
import HaxeMacro.Proofs.Evaluator.Transitions

/-! # Evaluations and what they keep

An evaluation changes the runtime by making closures. The session of a call it leaves to the methods
that are given from outside, and what each of them keeps, every evaluation keeps.
-/

namespace HaxeMacro

variable {I G α : Type}

/-- What computations may do to a session: to do nothing, or one thing after the other. -/
structure Session.Chained (rel : Session I G → Session I G → Prop) : Prop where
  refl : ∀ s, rel s s
  trans : ∀ {a b c}, rel a b → rel b c → rel a c

def NativeMethod.Keeps (rel : Session I G → Session I G → Prop) (method : NativeMethod I G) :
    Prop :=
  ∀ args session, rel session ((method args).run session).2

namespace Eval

/-- What evaluations may do to a runtime and a session: to do nothing, to make a closure, or one
thing after the other. -/
structure Chained (rel : NativeState × Session I G → NativeState × Session I G → Prop) : Prop where
  refl : ∀ s, rel s s
  trans : ∀ {a b c}, rel a b → rel b c → rel a c
  closure : ∀ {runtime session f v runtime'}, runtime.addClosure f = .ok (v, runtime') →
    rel (runtime, session) (runtime', session)

variable {rel : NativeState × Session I G → NativeState × Session I G → Prop}

def Keeps (rel : NativeState × Session I G → NativeState × Session I G → Prop)
    (op : Eval I G α) : Prop :=
  ∀ s, rel (s.runtime, s.session) ((op.run s).2.runtime, (op.run s).2.session)

theorem Chained.transitions (h : Chained rel) :
    Transitions fun s t : EvalState I G => rel (s.runtime, s.session) (t.runtime, t.session) where
  refl _ := h.refl _
  trans := h.trans
  closure := h.closure
  declare _ _ _ := h.refl _
  assign _ := h.refl _
  scope := id
  body _ := id

namespace Keeps

variable (h : Chained rel) {natives : Natives I G}
  (hnatives : ∀ p ∈ natives, ∀ runtime, p.2.Keeps fun a b => rel (runtime, a) (runtime, b))
include h hnatives

theorem callNative (r : Reference) (args : List Value) : Keeps rel (callNative natives r args) :=
  Leads.callNative h.transitions (fun p hp args s => hnatives p hp s.runtime args s.session) r args

theorem callFunction {run : Expr → Eval I G Value} (hrun : ∀ e, Keeps rel (run e)) (f : Value)
    (args : List Value) : Keeps rel (callFunction natives run f args) :=
  Leads.callFunction h.transitions (fun p hp args s => hnatives p hp s.runtime args s.session)
    hrun f args

theorem eval (steps : Nat) (e : Expr) : Keeps rel (eval natives steps e) :=
  Leads.eval h.transitions (fun p hp args s => hnatives p hp s.runtime args s.session) steps e

end Keeps

end Eval

/-! ## The native runtime -/

/-- What a runtime makes of a session when it is prepared or runs code. -/
inductive Runtime.Acts {R : Type} (rt : Runtime R I G) : Session I G → Session I G → Prop
  | prepare {session session'} (h : rt.Prepares session session') : Acts rt session session'
  | perform (task : RuntimeTask) (state : R) (session : Session I G) :
    Acts rt session ((rt.perform task).run (state, session)).2.2

namespace NativeRuntime

theorem prepares_make {natives : Natives I G} {failures : InitFailures} {steps : Nat}
    {session session' : Session I G} (h : (make natives failures steps).Prepares session session') :
    session' = session := by
  cases h with
  | init state session =>
    simp only [make, ExceptT.run]
    cases Entries.get? failures state.generation <;> rfl
  | reuse state session => rfl

theorem keeps_perform {rel : NativeState × Session I G → NativeState × Session I G → Prop}
    (h : Eval.Chained rel) {natives : Natives I G}
    (hnatives : ∀ p ∈ natives, ∀ runtime, p.2.Keeps fun a b => rel (runtime, a) (runtime, b))
    (failures : InitFailures) (steps : Nat) (task : RuntimeTask) (state : NativeState)
    (session : Session I G) :
    rel (state, session) (((make natives failures steps).perform task).run (state, session)).2 := by
  have hrun := Eval.Keeps.eval h hnatives steps
  cases task with
  | callByPath path method args =>
    exact Eval.Keeps.callNative h hnatives ⟨path, method⟩ args ⟨.empty, state, session⟩
  | callFunction f args =>
    exact Eval.Keeps.callFunction h hnatives hrun f args ⟨.empty, state, session⟩
  | evalExpr e =>
    have htransitions := h.transitions
    exact Eval.Leads.bind htransitions (Eval.Leads.inBody htransitions .empty (hrun e.expr))
      (fun _ => Eval.Leads.pure htransitions _) ⟨.empty, state, session⟩

theorem acts_make {rel : Session I G → Session I G → Prop} (h : Session.Chained rel)
    {natives : Natives I G} (hnatives : ∀ p ∈ natives, p.2.Keeps rel) {failures : InitFailures}
    {steps : Nat} {session session' : Session I G}
    (hacts : (make natives failures steps).Acts session session') : rel session session' := by
  cases hacts with
  | prepare hprepares =>
    rw [prepares_make hprepares]
    exact h.refl _
  | perform task state session =>
    have hchained : Eval.Chained fun a b : NativeState × Session I G => rel a.2 b.2 :=
      ⟨fun s => h.refl s.2, h.trans, fun _ => h.refl _⟩
    exact keeps_perform hchained (fun p hp _ => hnatives p hp) failures steps task state session

end NativeRuntime

end HaxeMacro
