import HaxeMacro.Proofs.Fragment.Children
import Mathlib.Algebra.GroupWithZero.Nat

/-! # Rewriting

A rule replaces single expressions; a step of the rule replaces one expression inside another. A
counting visit from the bottom takes as many steps as it counts. Where the rule has nothing to
replace in what it makes of settled parts, the visit leaves nothing to replace.
-/

namespace HaxeMacro

namespace Expr

/-! ## Steps -/

section
variable (rule : Expr → Expr → Prop)

/-- One expression inside is replaced. -/
inductive Step : Expr → Expr → Prop
  | root {e e' : Expr} (h : rule e e') : Step e e'
  | part {e child child' : Expr} {before after : List Expr}
    (h : e.children = before ++ child :: after) (step : Step child child') :
    Step e { e with kind := e.kind.withChildren (before ++ child' :: after) }

inductive Steps : Nat → Expr → Expr → Prop
  | refl (e : Expr) : Steps 0 e e
  | tail {n : Nat} {e e' e'' : Expr} (steps : Steps n e e') (step : Step rule e' e'') :
    Steps (n + 1) e e''

/-- The rule replaces nothing inside the expression. -/
def Normal (e : Expr) : Prop := ∀ node ∈ e.nodes, ∀ e', ¬ rule node e'

end

variable {rule : Expr → Expr → Prop}

namespace Steps

variable {m n : Nat} {e e' e'' : Expr}

theorem eq_of_zero (h : Steps rule 0 e e') : e = e' := by
  cases h
  rfl

theorem trans (h : Steps rule m e e') (h' : Steps rule n e' e'') : Steps rule (m + n) e e'' := by
  induction h' with
  | refl => exact h
  | tail _ step ih => exact (ih h).tail step

section
variable {kind : ExprKind} {pos : Position}

theorem part {child child' : Expr} {before after : List Expr}
    (hlength : (before ++ child :: after).length = kind.children.length)
    (h : Steps rule n child child') :
    Steps rule n ⟨kind.withChildren (before ++ child :: after), pos⟩
      ⟨kind.withChildren (before ++ child' :: after), pos⟩ := by
  induction h with
  | refl => exact .refl _
  | @tail n _ mid _ _ step ih =>
    have hmid : (before ++ mid :: after).length = kind.children.length := by
      simpa using hlength
    have hlast := step.part (e := ⟨kind.withChildren (before ++ mid :: after), pos⟩)
      (ExprKind.children_withChildren hmid)
    rw [ExprKind.withChildren_withChildren hmid (by simpa using hlength)] at hlast
    exact (ih hlength).tail hlast

/-- All direct parts take their steps, one part after the other. -/
theorem parts {count : Expr → Nat} {g : Expr → Expr}
    (h : ∀ child ∈ kind.children, Steps rule (count child) child (g child)) :
    Steps rule (kind.children.map count).sum ⟨kind, pos⟩ ⟨kind.mapChildren g, pos⟩ := by
  -- The parts in `before` have taken their steps already.
  have hrest (rest before : List Expr)
      (hlength : (before ++ rest).length = kind.children.length)
      (h : ∀ child ∈ rest, Steps rule (count child) child (g child)) :
      Steps rule (rest.map count).sum ⟨kind.withChildren (before ++ rest), pos⟩
        ⟨kind.withChildren (before ++ rest.map g), pos⟩ := by
    induction rest generalizing before with
    | nil => exact .refl _
    | cons child rest ih =>
      obtain ⟨hchild, hrest⟩ := List.forall_mem_cons.mp h
      have hnext := ih (before ++ [g child]) (by simpa using hlength) hrest
      rw [List.append_assoc, List.append_assoc] at hnext
      exact (Steps.part hlength hchild).trans hnext
  have hall := hrest kind.children [] rfl h
  rwa [List.nil_append, List.nil_append, ExprKind.withChildren_children,
    ExprKind.withChildren_map] at hall

end

end Steps

theorem normal_iff {e : Expr} :
    Normal rule e ↔ (∀ e', ¬ rule e e') ∧ ∀ child ∈ e.children, Normal rule child :=
  forall_mem_nodes

/-! ## Numbers of nodes -/

def countNodes (p : Expr → Bool) (e : Expr) : Nat := e.nodes.countP p

theorem countNodes_eq (p : Expr → Bool) (e : Expr) :
    e.countNodes p = (e.children.map (countNodes p)).sum + if p e then 1 else 0 := by
  rw [countNodes, nodes_eq, List.countP_cons, List.countP_flatMap]
  rfl

section
-- Each replacement takes one node of the kind away. Other parts do not change the kind of a node.
variable {p : Expr → Bool}
  (hroot : ∀ {e e'}, rule e e' → e.countNodes p = e'.countNodes p + 1)
  (hpart : ∀ (e : Expr) {es : List Expr}, es.length = e.children.length →
    p { e with kind := e.kind.withChildren es } = p e)
include hroot hpart

theorem Step.countNodes_eq {e e' : Expr} (h : Step rule e e') :
    e.countNodes p = e'.countNodes p + 1 := by
  induction h with
  | root h => exact hroot h
  | @part e child child' before after h step ih =>
    have hlength : (before ++ child' :: after).length = e.children.length := by
      rw [h]
      simp
    have hchildren : children { e with kind := e.kind.withChildren (before ++ child' :: after) } =
        before ++ child' :: after := ExprKind.children_withChildren hlength
    rw [Expr.countNodes_eq, Expr.countNodes_eq p { e with kind := _ }, hpart e hlength, h,
      hchildren]
    simp only [List.map_append, List.map_cons, List.sum_append, List.sum_cons]
    omega

theorem Steps.countNodes_eq {n : Nat} {e e' : Expr} (h : Steps rule n e e') :
    e.countNodes p = e'.countNodes p + n := by
  induction h with
  | refl => rfl
  | tail _ step ih => rw [ih, step.countNodes_eq hroot hpart, Nat.add_assoc, Nat.add_comm 1]

end

/-! ## Counting visits -/

section
variable (replace : Expr → Option Expr)

def countingVisit (node : Expr) : StateM Nat Expr := do
  match replace node with
  | some new => modifyGet fun n => (new, n + 1)
  | none => pure node

theorem run_countingVisit (node : Expr) (n : Nat) :
    (countingVisit replace node).run n =
      ((replace node).getD node, n + (replace node).toList.length) := by
  unfold countingVisit
  cases replace node <;> rfl

def visitParts (e : Expr) : Expr × Nat :=
  ({ e with kind := e.kind.mapChildren fun child => (child.mapUpCounting replace).1 },
    (e.children.map fun child => (child.mapUpCounting replace).2).sum)

def visitRoot (parts : Expr × Nat) : Expr × Nat :=
  ((replace parts.1).getD parts.1, parts.2 + (replace parts.1).toList.length)

theorem run_mapUpM_of_children {e : Expr}
    (h : ∀ child ∈ e.children, ∀ n, (child.mapUpM (countingVisit replace)).run n =
      ((child.mapUpCounting replace).1, n + (child.mapUpCounting replace).2)) (n : Nat) :
    (e.mapUpM (countingVisit replace)).run n =
      ((visitRoot replace (e.visitParts replace)).1,
        n + (visitRoot replace (e.visitParts replace)).2) := by
  have hsum (es : List Expr) : es.foldl (fun n e => n + (e.mapUpCounting replace).2) n =
      n + (es.map fun e => (e.mapUpCounting replace).2).sum := by
    induction es generalizing n with
    | nil => rfl
    | cons e es ih => rw [List.foldl_cons, ih, List.map_cons, List.sum_cons, Nat.add_assoc]
  have hparts : ∀ child ∈ e.children, Goes (fun n e => n + (e.mapUpCounting replace).2)
      (child.mapUpM (countingVisit replace)) [child] (child.mapUpCounting replace).1 := h
  rw [mapUpM, Goes.expr rfl hparts n, run_countingVisit, hsum, Nat.add_assoc]
  rfl

theorem run_mapUpM_countingVisit (e : Expr) (n : Nat) :
    (e.mapUpM (countingVisit replace)).run n =
      ((e.mapUpCounting replace).1, n + (e.mapUpCounting replace).2) := by
  induction e using Expr.induction_children generalizing n with
  | h e ih =>
    have hstart : e.mapUpCounting replace = _ := run_mapUpM_of_children replace ih 0
    rw [run_mapUpM_of_children replace ih, hstart, Nat.zero_add]

/-- An expression is visited after its direct parts. -/
theorem mapUpCounting_eq (e : Expr) :
    e.mapUpCounting replace = visitRoot replace (e.visitParts replace) := by
  have hstart : e.mapUpCounting replace = _ :=
    run_mapUpM_of_children replace (fun child _ => run_mapUpM_countingVisit replace child) 0
  rw [hstart, Nat.zero_add]

end

/-! ## Settled expressions -/

/-- The function answers as the rule says, and the rule has nothing to replace in its own answer if
it has nothing to replace in the parts of the expression. -/
structure Settles (replace : Expr → Option Expr) (rule : Expr → Expr → Prop) : Prop where
  answers : ∀ {e e'}, replace e = some e' ↔ rule e e'
  normal : ∀ {e e'}, (∀ child ∈ e.children, Normal rule child) → rule e e' → Normal rule e'

namespace Settles

variable {replace : Expr → Option Expr}

/-- The visit takes as many steps as it counts. -/
theorem steps (h : Settles replace rule) (e : Expr) :
    Steps rule (e.mapUpCounting replace).2 e (e.mapUpCounting replace).1 := by
  induction e using Expr.induction_children with
  | h e ih =>
    obtain ⟨kind, pos⟩ := e
    let parts := visitParts replace ⟨kind, pos⟩
    have hparts : Steps rule parts.2 ⟨kind, pos⟩ parts.1 := Steps.parts ih
    rw [mapUpCounting_eq, visitRoot]
    cases hnew : replace parts.1 with
    | none => exact hparts
    | some new => exact hparts.tail (.root (h.answers.mp hnew))

theorem normal_visit (h : Settles replace rule) (e : Expr) :
    Normal rule (e.mapUpCounting replace).1 := by
  induction e using Expr.induction_children with
  | h e ih =>
    have hparts : ∀ child ∈ (e.visitParts replace).1.children, Normal rule child := by
      rw [visitParts, children, ExprKind.children_mapChildren, List.forall_mem_map]
      exact ih
    rw [mapUpCounting_eq, visitRoot]
    cases hnew : replace (e.visitParts replace).1 with
    | none =>
      refine normal_iff.mpr ⟨fun e' he' => ?_, hparts⟩
      cases hnew.symm.trans (h.answers.mpr he')
    | some new => exact h.normal hparts (h.answers.mp hnew)

theorem visit_of_normal (h : Settles replace rule) {e : Expr} (hnormal : Normal rule e) :
    e.mapUpCounting replace = (e, 0) := by
  induction e using Expr.induction_children with
  | h e ih =>
    obtain ⟨hroot, hchildren⟩ := normal_iff.mp hnormal
    have hsame (child : Expr) (hchild : child ∈ e.children) :
        child.mapUpCounting replace = (child, 0) := ih child hchild (hchildren child hchild)
    have hparts : e.visitParts replace = (e, 0) := by
      obtain ⟨kind, pos⟩ := e
      unfold visitParts
      rw [ExprKind.mapChildren_congr fun child hchild => congrArg Prod.fst (hsame child hchild),
        ExprKind.mapChildren_id, List.map_congr_left fun child hchild =>
          congrArg Prod.snd (hsame child hchild)]
      simp
    have hnone : replace e = none := Option.eq_none_iff_forall_ne_some.mpr fun e' he' =>
      hroot e' (h.answers.mp he')
    rw [mapUpCounting_eq, hparts, visitRoot, hnone]
    rfl

theorem visit_eq_self_iff (h : Settles replace rule) {e : Expr} :
    (e.mapUpCounting replace).1 = e ↔ Normal rule e := by
  constructor
  · intro heq
    exact heq ▸ h.normal_visit e
  · intro hnormal
    rw [h.visit_of_normal hnormal]

theorem count_eq_zero_iff (h : Settles replace rule) {e : Expr} :
    (e.mapUpCounting replace).2 = 0 ↔ (e.mapUpCounting replace).1 = e := by
  constructor
  · intro hzero
    have hsteps := h.steps e
    rw [hzero] at hsteps
    exact hsteps.eq_of_zero.symm
  · intro heq
    rw [h.visit_of_normal (h.visit_eq_self_iff.mp heq)]

end Settles

end Expr

end HaxeMacro
