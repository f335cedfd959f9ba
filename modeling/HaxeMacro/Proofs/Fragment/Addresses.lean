import HaxeMacro.Proofs.Fragment.Visits
import Mathlib.Data.List.Perm.Basic

/-! # Addresses

An address leads from an expression to one that stands in it: to a direct part, to a part of that,
and so on. Equal expressions can stand at several addresses, so what a visit comes by is told apart
by its address.

There are two ways through all addresses. Both take the parts of an expression from left to right;
one goes by an expression before what stands in it, the other one after.
-/

namespace HaxeMacro

abbrev Address := List Nat

namespace Address

/-- `b` lies inside `a`. -/
def Above (a b : Address) : Prop := a <+: b ∧ a ≠ b

/-- The ways to `a` and `b` part somewhere, and `a` takes a part that comes before that of `b`. -/
inductive LeftOf : Address → Address → Prop
  | here {i j : Nat} (h : i < j) (a b : Address) : LeftOf (i :: a) (j :: b)
  | inside (i : Nat) {a b : Address} (h : LeftOf a b) : LeftOf (i :: a) (i :: b)

def Preorder (a b : Address) : Prop := Above a b ∨ LeftOf a b

def Postorder (a b : Address) : Prop := Above b a ∨ LeftOf a b

theorem above_cons (i : Nat) (a : Address) : Above [] (i :: a) := ⟨List.nil_prefix, by simp⟩

theorem Above.below {a b : Address} (h : Above a b) (i : Nat) : Above (i :: a) (i :: b) := by
  simpa [Above] using h

theorem LeftOf.ne {a b : Address} (h : LeftOf a b) : a ≠ b := by
  induction h with
  | here h => simp; omega
  | inside i _ ih => simpa using ih

theorem Preorder.ne {a b : Address} : Preorder a b → a ≠ b
  | .inl h => h.2
  | .inr h => h.ne

theorem Preorder.below {a b : Address} (i : Nat) : Preorder a b → Preorder (i :: a) (i :: b)
  | .inl h => .inl (h.below i)
  | .inr h => .inr (.inside i h)

theorem Postorder.below {a b : Address} (i : Nat) : Postorder a b → Postorder (i :: a) (i :: b)
  | .inl h => .inl (h.below i)
  | .inr h => .inr (.inside i h)

end Address

/-! ## Addresses in several parts -/

/-- The addresses that `list` gives for the expressions, each with the number of its expression. -/
def addressesIn (list : Expr → List Address) (es : List Expr) : List Address :=
  es.zipIdx.flatMap fun part => (list part.1).map (part.2 :: ·)

section
variable {list list' : Expr → List Address} {es : List Expr}

theorem mem_addressesIn {a : Address} :
    a ∈ addressesIn list es ↔ ∃ i e b, es[i]? = some e ∧ b ∈ list e ∧ a = i :: b := by
  simp only [addressesIn, List.mem_flatMap, List.mem_map, Prod.exists,
    List.mem_zipIdx_iff_getElem?]
  constructor
  · rintro ⟨e, i, he, b, hb, rfl⟩
    exact ⟨i, e, b, he, hb, rfl⟩
  · rintro ⟨i, e, b, he, hb, rfl⟩
    exact ⟨e, i, he, b, hb, rfl⟩

theorem perm_addressesIn (h : ∀ e ∈ es, (list e).Perm (list' e)) :
    (addressesIn list es).Perm (addressesIn list' es) :=
  List.Perm.flatMap_left _ fun _ hpart => (h _ (List.fst_mem_of_mem_zipIdx hpart)).map _

theorem pairwise_addressesIn {R : Address → Address → Prop}
    (hbelow : ∀ i a b, R a b → R (i :: a) (i :: b)) (hleft : ∀ {a b}, a.LeftOf b → R a b)
    (h : ∀ e ∈ es, (list e).Pairwise R) : (addressesIn list es).Pairwise R := by
  unfold addressesIn
  rw [List.pairwise_flatMap]
  refine ⟨fun part hpart => ?_, ?_⟩
  · rw [List.pairwise_map]
    exact (h _ (List.fst_mem_of_mem_zipIdx hpart)).imp (hbelow _ _ _)
  · refine List.pairwise_iff_getElem.mpr fun i j hi hj hij => ?_
    simp only [List.mem_map, List.getElem_zipIdx]
    rintro _ ⟨a, -, rfl⟩ _ ⟨b, -, rfl⟩
    exact hleft (.here (by omega) a b)

end

namespace Expr

def at? : Expr → Address → Option Expr
  | e, [] => some e
  | e, i :: a => e.children[i]?.bind fun child => child.at? a

@[simp] theorem at?_nil (e : Expr) : e.at? [] = some e := rfl

theorem at?_cons (e : Expr) (i : Nat) (a : Address) :
    e.at? (i :: a) = e.children[i]?.bind (·.at? a) := rfl

theorem at?_append (e : Expr) (a b : Address) : e.at? (a ++ b) = (e.at? a).bind (·.at? b) := by
  induction a generalizing e with
  | nil => rfl
  | cons i a ih =>
    rw [List.cons_append, at?_cons, at?_cons]
    cases e.children[i]? with
    | none => rfl
    | some child => exact ih child

/-- All addresses in an expression, each before those inside it. -/
def addressesDown (e : Expr) : List Address :=
  [] :: e.children.attach.zipIdx.flatMap fun part => part.1.1.addressesDown.map (part.2 :: ·)
termination_by e.nodes.length
decreasing_by exact length_nodes_lt part.1.2

/-- All addresses in an expression, each after those inside it. -/
def addressesUp (e : Expr) : List Address :=
  (e.children.attach.zipIdx.flatMap fun part => part.1.1.addressesUp.map (part.2 :: ·)) ++ [[]]
termination_by e.nodes.length
decreasing_by exact length_nodes_lt part.1.2

theorem flatMap_attach_zipIdx (list : Expr → List Address) (es : List Expr) :
    (es.attach.zipIdx.flatMap fun part => (list part.1.1).map (part.2 :: ·)) =
      addressesIn list es := by
  unfold addressesIn
  conv_rhs => rw [← List.attach_map_subtype_val es, List.zipIdx_map, List.flatMap_map]
  rfl

theorem addressesDown_eq (e : Expr) :
    e.addressesDown = [] :: addressesIn addressesDown e.children := by
  rw [addressesDown, flatMap_attach_zipIdx]

theorem addressesUp_eq (e : Expr) :
    e.addressesUp = addressesIn addressesUp e.children ++ [[]] := by
  rw [addressesUp, flatMap_attach_zipIdx]

theorem filterMap_at?_addressesIn (list : Expr → List Address) (e : Expr) :
    (addressesIn list e.children).filterMap e.at? =
      e.children.flatMap fun child => (list child).filterMap child.at? := by
  have hpart : ∀ part ∈ e.children.zipIdx,
      ((list part.1).map (part.2 :: ·)).filterMap e.at? =
        (list part.1).filterMap part.1.at? := by
    intro part hpart
    rw [List.filterMap_map]
    refine List.filterMap_congr fun a _ => ?_
    simp [at?_cons, List.mem_zipIdx_iff_getElem?.mp hpart]
  conv_rhs => rw [← List.zipIdx_map_fst 0 e.children, List.flatMap_map]
  rw [addressesIn, List.filterMap_flatMap]
  exact List.flatMap_congr hpart

theorem mem_addressesDown {e : Expr} {a : Address} : a ∈ e.addressesDown ↔ (e.at? a).isSome := by
  induction e using Expr.induction_children generalizing a with
  | h e ih =>
    rw [addressesDown_eq, List.mem_cons]
    cases a with
    | nil => simp
    | cons i a =>
      simp only [List.cons_ne_nil, false_or, mem_addressesIn, List.cons.injEq, at?_cons]
      constructor
      · rintro ⟨_, child, _, hchild, hmem, rfl, rfl⟩
        rw [hchild]
        exact (ih child (List.mem_of_getElem? hchild)).mp hmem
      · intro h
        cases hchild : e.children[i]? with
        | none => simp [hchild] at h
        | some child =>
          rw [hchild] at h
          exact ⟨i, child, a, hchild, (ih child (List.mem_of_getElem? hchild)).mpr h, rfl, rfl⟩

theorem perm_addressesUp (e : Expr) : e.addressesUp.Perm e.addressesDown := by
  induction e using Expr.induction_children with
  | h e ih =>
    rw [addressesUp_eq, addressesDown_eq]
    exact (List.perm_append_singleton _ _).trans ((perm_addressesIn ih).cons _)

theorem mem_addressesUp {e : Expr} {a : Address} : a ∈ e.addressesUp ↔ (e.at? a).isSome :=
  e.perm_addressesUp.mem_iff.trans mem_addressesDown

theorem pairwise_addressesDown (e : Expr) : e.addressesDown.Pairwise Address.Preorder := by
  induction e using Expr.induction_children with
  | h e ih =>
    rw [addressesDown_eq, List.pairwise_cons]
    refine ⟨fun a ha => ?_, pairwise_addressesIn (fun i _ _ h => h.below i) .inr ih⟩
    obtain ⟨i, _, b, -, -, rfl⟩ := mem_addressesIn.mp ha
    exact .inl (Address.above_cons i b)

theorem pairwise_addressesUp (e : Expr) : e.addressesUp.Pairwise Address.Postorder := by
  induction e using Expr.induction_children with
  | h e ih =>
    rw [addressesUp_eq, List.pairwise_append]
    refine ⟨pairwise_addressesIn (fun i _ _ h => h.below i) .inr ih, List.pairwise_singleton _ _,
      fun a ha => ?_⟩
    obtain ⟨i, _, b, -, -, rfl⟩ := mem_addressesIn.mp ha
    rw [List.forall_mem_singleton]
    exact .inl (Address.above_cons i b)

theorem nodup_addressesDown (e : Expr) : e.addressesDown.Nodup :=
  e.pairwise_addressesDown.imp Address.Preorder.ne

theorem nodes_eq_filterMap (e : Expr) : e.nodes = e.addressesDown.filterMap e.at? := by
  induction e using Expr.induction_children with
  | h e ih =>
    rw [addressesDown_eq, nodes_eq, List.filterMap_cons_some (at?_nil e),
      filterMap_at?_addressesIn]
    exact congrArg _ (List.flatMap_congr ih)

end Expr

end HaxeMacro
