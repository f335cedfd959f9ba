import HaxeMacro.Filter.Shape
import Mathlib.Data.List.Basic

/-! # Initial values in the constructor

The initial values of variables become assignments, which run before everything the constructor did
so far. None of them is lost, none is there twice, and they keep their order.
-/

namespace HaxeMacro

/-- The statements of a body: those of a block, or the body itself. -/
def TypedExpr.statements (body : TypedExpr) : List Expr :=
  match body.expr.kind with
  | .block items => items
  | _ => [body.expr]

namespace Member

def uninitialized (m : Member) : Member :=
  match m.kind with
  | .method => m
  | .var => { m with body := none }

def init? (m : Member) : Option Expr :=
  match m.kind with
  | .method => none
  | .var => m.body.map (·.expr)

def assign (m : Member) (init : Expr) : Expr :=
  ⟨.binary .assign ⟨.field (.ident "this" m.pos) m.name, m.pos⟩ init, m.pos⟩

theorem initAssignment_eq (m : Member) : Filter.initAssignment m = m.init?.map m.assign := by
  obtain ⟨name, type, kind, pos, annotations, body⟩ := m
  cases kind with
  | method => rfl
  | var => cases body <;> rfl

theorem dropInit_eq (m : Member) : Filter.dropInit m = m.uninitialized := by
  obtain ⟨name, type, kind, pos, annotations, body⟩ := m
  cases kind <;> rfl

theorem body_uninitialized {m : Member} (h : m.uninitialized.kind = .var) :
    m.uninitialized.body = none := by
  obtain ⟨name, type, kind, pos, annotations, body⟩ := m
  cases kind with
  | method => cases h
  | var => rfl

end Member

namespace ClassDef

def assignments (c : ClassDef) : List Expr := c.fields.filterMap fun m => m.init?.map m.assign

def constructorOrNew (c : ClassDef) : Member :=
  c.constructor.getD (.method "new" (.func [] .void) none)

/-- The initial values of `c` are in the constructor of `d`, and nothing else is different. -/
structure InitsMoved (c d : ClassDef) : Prop where
  fields : d.fields = c.fields.map Member.uninitialized
  none_left : ∀ m ∈ d.fields, m.kind = .var → m.body = none
  constructor : ∃ pos, d.constructor = some { c.constructorOrNew with
    body := some ⟨⟨.block (c.assignments ++ c.constructorOrNew.body.toList.flatMap (·.statements)),
      pos⟩, (c.constructorOrNew.body.map (·.type)).getD .void⟩ }
  others : d = { c with fields := d.fields, constructor := d.constructor }

end ClassDef

namespace Filter

theorem filterMap_initAssignment (c : ClassDef) :
    c.fields.filterMap initAssignment = c.assignments :=
  List.filterMap_congr fun m _ => m.initAssignment_eq

theorem prepend_eq (statements : List Expr) (pos : Position) (body : TypedExpr) :
    ∃ p, prepend statements pos body =
      ⟨⟨.block (statements ++ body.statements), p⟩, body.type⟩ := by
  obtain ⟨⟨kind, p⟩, type⟩ := body
  cases kind with
  | block items => exact ⟨p, rfl⟩
  | _ => exact ⟨pos, rfl⟩

theorem prepend_constructor (statements : List Expr) (c : ClassDef) :
    let ctor := c.constructor.getD (emptyConstructor c.pos)
    ∃ p, { ctor with body := some (prepend statements c.pos (ctor.body.getD (emptyBody c.pos))) } =
      { c.constructorOrNew with
        body := some ⟨⟨.block (statements ++ c.constructorOrNew.body.toList.flatMap (·.statements)),
          p⟩, (c.constructorOrNew.body.map (·.type)).getD .void⟩ } := by
  cases hc : c.constructor with
  | none =>
    refine ⟨c.pos, ?_⟩
    rw [ClassDef.constructorOrNew, hc]
    rfl
  | some ctor =>
    rw [ClassDef.constructorOrNew, hc]
    cases hbody : ctor.body with
    | none =>
      refine ⟨c.pos, ?_⟩
      simp [hbody, prepend, emptyBody]
    | some body =>
      obtain ⟨p, hprepend⟩ := prepend_eq statements c.pos body
      refine ⟨p, ?_⟩
      simp [hbody, hprepend]

theorem assignments_eq_nil_iff {c : ClassDef} :
    c.assignments = [] ↔ ∀ m ∈ c.fields, m.init? = none := by
  simp [ClassDef.assignments, List.filterMap_eq_nil_iff]

section
variable {c : ClassDef} (hkind : ¬ (c.isExtern || c.isInterface) = true)
include hkind

theorem fieldInit_of_nil (h : c.assignments = []) : fieldInit c = (c, .ok 0) := by
  rw [fieldInit, if_neg hkind, filterMap_initAssignment, h]
  rfl

theorem fieldInit_of_ne_nil (h : c.assignments ≠ []) :
    ∃ d, fieldInit c = (d, .ok c.assignments.length) ∧ c.InitsMoved d := by
  obtain ⟨pos, hconstructor⟩ := prepend_constructor c.assignments c
  have hfields : c.fields.map dropInit = c.fields.map Member.uninitialized :=
    List.map_congr_left fun m _ => m.dropInit_eq
  rw [fieldInit, if_neg hkind, filterMap_initAssignment]
  split
  · contradiction
  · refine ⟨_, rfl, hfields, ?_, ⟨pos, congrArg some hconstructor⟩, rfl⟩
    rw [hfields, List.forall_mem_map]
    exact fun m _ => m.body_uninitialized

end

/-- The initial values of a class go to its constructor, all together. An extern class, an interface
or a class without initial values stays as it is. -/
theorem fieldInit_moves_inits (c : ClassDef) :
    if c.isExtern = false ∧ c.isInterface = false ∧ ∃ m ∈ c.fields, m.init? ≠ none then
      ∃ d, fieldInit c = (d, .ok c.assignments.length) ∧ c.InitsMoved d
    else fieldInit c = (c, .ok 0) := by
  by_cases hkind : (c.isExtern || c.isInterface) = true
  · rw [if_neg fun hcond => by simp [hcond.1, hcond.2.1] at hkind]
    exact if_pos hkind
  · obtain ⟨hdefined, hinterface⟩ := Bool.or_eq_false_iff.mp (Bool.not_eq_true _ ▸ hkind)
    by_cases hnone : ∀ m ∈ c.fields, m.init? = none
    · rw [if_neg fun ⟨_, _, m, hm, hinit⟩ => hinit (hnone m hm)]
      exact fieldInit_of_nil hkind (assignments_eq_nil_iff.mpr hnone)
    · have hsome : ∃ m ∈ c.fields, m.init? ≠ none := by simpa using hnone
      rw [if_pos ⟨hdefined, hinterface, hsome⟩]
      exact fieldInit_of_ne_nil hkind (mt assignments_eq_nil_iff.mp hnone)

/-- The body of a constructor can be a single expression. -/
example :
    let total : Member := .var "total" .int (some ⟨.int "1" .null, .int⟩)
    let new (body : Expr) : Member := .method "new" (.func [] .void) (some ⟨body, .void⟩)
    let c := { ClassDef.empty ⟨[], "Sum"⟩ ⟨[], "Sum"⟩ with
      fields := [total], constructor := some (new (.ident "start" .null)) }
    fieldInit c = ({ c with
      fields := [{ total with body := none }]
      constructor :=
        some (new ⟨.block [total.assign (.int "1" .null), .ident "start" .null], .null⟩) },
      .ok 1) := rfl

end Filter

end HaxeMacro
