import HaxeMacro.Program.Class
import Mathlib.Algebra.GroupWithZero.Nat
import Mathlib.Data.List.Basic

/-! # Visits of bodies

A visit of a class comes by its bodies one after the other, whatever it does there.
-/

namespace HaxeMacro

def Member.mapBody (f : String → Expr → Expr) (m : Member) : Member :=
  { m with body := m.body.map fun body => { body with expr := f m.name body.expr } }

def Member.bodyExprs (m : Member) : List (String × Expr) :=
  m.body.toList.map fun body => (m.name, body.expr)

theorem Member.bodyExprs_mapBody (f : String → Expr → Expr) (m : Member) :
    (m.mapBody f).bodyExprs = m.bodyExprs.map fun body => (body.1, f body.1 body.2) := by
  simp only [bodyExprs, mapBody]
  cases m.body <;> rfl

theorem flatMap_bodyExprs_mapBody (f : String → Expr → Expr) (ms : List Member) :
    (ms.map (·.mapBody f)).flatMap Member.bodyExprs =
      (ms.flatMap Member.bodyExprs).map fun body => (body.1, f body.1 body.2) := by
  rw [List.flatMap_map, List.map_flatMap]
  exact List.flatMap_congr fun m _ => m.bodyExprs_mapBody f

namespace ClassDef

def bodyExprs (c : ClassDef) : List (String × Expr) :=
  c.members.flatMap Member.bodyExprs ++ c.init.toList.map fun body => ("__init__", body.expr)

def mapBodies (f : String → Expr → Expr) (c : ClassDef) : ClassDef :=
  { c with
    fields := c.fields.map (·.mapBody f)
    statics := c.statics.map (·.mapBody f)
    constructor := c.constructor.map (·.mapBody f)
    init := c.init.map fun body => { body with expr := f "__init__" body.expr } }

theorem bodyExprs_mapBodies (f : String → Expr → Expr) (c : ClassDef) :
    (c.mapBodies f).bodyExprs = c.bodyExprs.map fun body => (body.1, f body.1 body.2) := by
  have hmembers : (c.mapBodies f).members = c.members.map (·.mapBody f) := by
    simp only [members, mapBodies, List.map_append]
    cases c.constructor <;> rfl
  rw [bodyExprs, bodyExprs, hmembers, flatMap_bodyExprs_mapBody, List.map_append]
  simp only [mapBodies]
  cases c.init <;> rfl

/-- The class stays if and only if all its bodies do. -/
theorem mapBodies_eq_self_iff {f : String → Expr → Expr} {c : ClassDef} :
    c.mapBodies f = c ↔ ∀ b ∈ c.bodyExprs, f b.1 b.2 = b.2 := by
  constructor
  · intro heq b hb
    have hbodies := bodyExprs_mapBodies f c
    rw [heq] at hbodies
    have hsame := List.map_inj_left.mp ((List.map_id' _).trans hbodies) b hb
    exact (congrArg Prod.snd hsame).symm
  · intro h
    have hmember {m : Member} (hm : m ∈ c.members) : m.mapBody f = m := by
      have hbodies (b : String × Expr) (hb : b ∈ m.bodyExprs) : f b.1 b.2 = b.2 :=
        h b (List.mem_append_left _ (List.mem_flatMap.mpr ⟨m, hm, hb⟩))
      obtain ⟨name, type, kind, pos, annotations, body⟩ := m
      cases body with
      | none => rfl
      | some body =>
        have hbody := hbodies (name, body.expr) (.head _)
        simp only [Member.mapBody, Option.map_some, hbody]
    have hmembers {ms : List Member} (hms : ms ⊆ c.members) : ms.map (·.mapBody f) = ms :=
      (List.map_congr_left fun m hm => hmember (hms hm)).trans (List.map_id' ms)
    have hfields : c.fields.map (·.mapBody f) = c.fields :=
      hmembers fun m hm => by simp [members, hm]
    have hstatics : c.statics.map (·.mapBody f) = c.statics :=
      hmembers fun m hm => by simp [members, hm]
    have hconstructor : c.constructor.map (·.mapBody f) = c.constructor :=
      (Option.map_congr fun m hm => hmember (by simp [members, hm])).trans Option.map_id'
    have hinit : (c.init.map fun body => { body with expr := f "__init__" body.expr }) =
        c.init := by
      cases hc : c.init with
      | none => rfl
      | some body =>
        have hbody := h ("__init__", body.expr) (by simp [bodyExprs, hc])
        simp only [Option.map_some, hbody]
    rw [mapBodies, hfields, hstatics, hconstructor, hinit]

/-! ## Visits -/

section
variable {m : Type → Type} [Monad m] {visit : String → Expr → m Expr} {f : String → Expr → Expr}
  -- `R action bodies a`: the action comes by these bodies and answers `a`.
  {R : {α : Type} → m α → List (String × Expr) → α → Prop}
  (hpure : ∀ {α : Type} (a : α), R (pure a) [] a)
  (hbind : ∀ {α β : Type} {action : m α} {k : α → m β} {bodies bodies' : List (String × Expr)}
    {a : α} {g : α → β}, R action bodies a → (∀ a, R (k a) bodies' (g a)) →
      R (action >>= k) (bodies ++ bodies') (g a))
  (hvisit : ∀ field e, R (visit field e) [(field, e)] (f field e))
include hpure hbind

theorem rel_last {α β : Type} {action : m α} {k : α → β} {bodies : List (String × Expr)} {a : α}
    (h : R action bodies a) : R (do return k (← action)) bodies (k a) := by
  have hlast := hbind h fun a => hpure (k a)
  rwa [List.append_nil] at hlast

include hvisit

theorem rel_visitBody (field : String) (body : Option TypedExpr) :
    R (visitBody visit field body) (body.toList.map fun body => (field, body.expr))
      (body.map fun body => { body with expr := f field body.expr }) := by
  cases body with
  | none => exact hpure none
  | some body => exact rel_last hpure hbind (hvisit field body.expr)

theorem rel_visitMember (member : Member) :
    R (visitMember visit member) member.bodyExprs (member.mapBody f) :=
  rel_last hpure hbind (rel_visitBody hpure hbind hvisit member.name member.body)

variable [LawfulMonad m]

theorem rel_visitMembers (members : List Member) :
    R (members.mapM (visitMember visit)) (members.flatMap Member.bodyExprs)
      (members.map (·.mapBody f)) := by
  induction members with
  | nil =>
    rw [List.mapM_nil]
    exact hpure []
  | cons member members ih =>
    rw [List.mapM_cons]
    exact hbind (g := fun first => first :: members.map (·.mapBody f))
      (rel_visitMember hpure hbind hvisit member) fun _ => rel_last hpure hbind ih

/-- What holds of the visit of each body, and of actions one after the other, holds of the visit of
a class. -/
theorem rel_visitBodies (c : ClassDef) : R (c.visitBodies visit) c.bodyExprs (c.mapBodies f) := by
  have hfields := rel_visitMembers hpure hbind hvisit c.fields
  have hstatics := rel_visitMembers hpure hbind hvisit c.statics
  have hlast (fields statics : List Member) (constructor : Option Member) :
      R (do
          let init ← visitBody visit "__init__" c.init
          return { c with fields, statics, constructor, init })
        (c.init.toList.map fun body => ("__init__", body.expr))
        { c.mapBodies f with fields, statics, constructor } :=
    rel_last hpure hbind (rel_visitBody hpure hbind hvisit "__init__" c.init)
  rw [bodyExprs, members, List.flatMap_append, List.flatMap_append, List.append_assoc,
    List.append_assoc]
  unfold visitBodies
  refine hbind (g := fun fields => { c.mapBodies f with fields }) hfields fun fields => ?_
  refine hbind (g := fun statics => { c.mapBodies f with fields, statics }) hstatics
    fun statics => ?_
  change R _ _
    ({ c.mapBodies f with fields, statics, constructor := c.constructor.map (·.mapBody f) } :
      ClassDef)
  cases c.constructor with
  | none =>
    exact hbind (g := fun constructor => { c.mapBodies f with fields, statics, constructor })
      (hpure none) (hlast fields statics)
  | some member =>
    rw [Option.toList_some, List.flatMap_singleton]
    refine hbind
      (g := fun member => { c.mapBodies f with fields, statics, constructor := some member })
      (rel_visitMember hpure hbind hvisit member) fun member => ?_
    exact hbind (g := fun constructor => { c.mapBodies f with fields, statics, constructor })
      (hpure (some member)) (hlast fields statics)

end

/-- The action comes by these bodies, counts in each of them, and answers `a`. -/
def Counts {α : Type} (count : Expr → Nat) (action : StateM Nat α) (bodies : List (String × Expr))
    (a : α) : Prop :=
  ∀ n, action.run n = (a, n + (bodies.map fun body => count body.2).sum)

theorem counts_bind {α β : Type} {count : Expr → Nat} {action : StateM Nat α}
    {k : α → StateM Nat β} {bodies bodies' : List (String × Expr)} {a : α} {g : α → β}
    (h : Counts count action bodies a) (hk : ∀ a, Counts count (k a) bodies' (g a)) :
    Counts count (action >>= k) (bodies ++ bodies') (g a) := by
  intro n
  rw [StateT.run_bind, h n, List.map_append, List.sum_append, ← Nat.add_assoc]
  exact hk a _

theorem countBodies_eq (f : Expr → Expr × Nat) (c : ClassDef) :
    c.countBodies f =
      (c.mapBodies fun _ e => (f e).1, (c.bodyExprs.map fun body => (f body.2).2).sum) := by
  have hvisit (field : String) (e : Expr) : Counts (fun e => (f e).2)
      (do modify (· + (f e).2); return (f e).1) [(field, e)] (f e).1 := fun n => rfl
  have hbodies := rel_visitBodies (f := fun _ e => (f e).1) (R := Counts fun e => (f e).2)
    (fun a n => rfl) counts_bind hvisit c
  exact (hbodies 0).trans (by rw [Nat.zero_add])

end ClassDef

namespace Filter

def withRun (body : Expr) : ClassDef :=
  { ClassDef.empty ⟨["demo"], "Foo"⟩ ⟨["demo"], "Foo"⟩ with
    fields := [.method "run" (.func [] .void) (some ⟨body, .void⟩)] }

def declare (isStatic : Bool) (name : String) (init : Expr) : Expr :=
  ⟨.vars [⟨name, none, some init, false, isStatic, []⟩], .null⟩

end Filter

end HaxeMacro
