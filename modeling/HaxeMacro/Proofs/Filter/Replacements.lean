import HaxeMacro.Filter.Basic
import HaxeMacro.Proofs.Filter.BodyVisits
import HaxeMacro.Proofs.Fragment.Rewriting
import Mathlib.Algebra.BigOperators.Group.List.Basic

/-! # Merged casts and wrapped exceptions

Both filters rewrite single expressions, and one visit of a body leaves nothing to rewrite: the
parts of an expression are settled before it, and what is made of it is settled then.
-/

namespace HaxeMacro

namespace ClassDef

def Rewritten (rule : Expr → Expr → Prop) (n : Nat) (c d : ClassDef) : Prop :=
  ∃ (f : Expr → Expr) (count : Expr → Nat), d = c.mapBodies (fun _ => f) ∧
    n = (c.bodyExprs.map fun b => count b.2).sum ∧
    ∀ b ∈ c.bodyExprs, Expr.Steps rule (count b.2) b.2 (f b.2)

def countNodes (p : Expr → Bool) (c : ClassDef) : Nat :=
  (c.bodyExprs.map fun b => b.2.countNodes p).sum

theorem Rewritten.countNodes_eq {rule : Expr → Expr → Prop} {p : Expr → Bool} {n : Nat}
    {c d : ClassDef} (h : Rewritten rule n c d)
    (hsteps : ∀ {n e e'}, Expr.Steps rule n e e' → e.countNodes p = e'.countNodes p + n) :
    c.countNodes p = d.countNodes p + n := by
  obtain ⟨f, count, rfl, rfl, h⟩ := h
  have hbodies : c.bodyExprs.map (fun b => b.2.countNodes p) =
      c.bodyExprs.map fun b => (f b.2).countNodes p + count b.2 :=
    List.map_congr_left fun b hb => hsteps (h b hb)
  rw [countNodes, countNodes, bodyExprs_mapBodies, hbodies, List.sum_map_add, List.map_map]
  rfl

end ClassDef

namespace Filter

open Expr

/-- The filter rewrites the bodies of `c` in `n` steps of the rule. It leaves `d`, in which there is
nothing to rewrite, so that it does nothing the next time. -/
structure SettlesIn (filter : ClassDef → Filtered) (rule : Expr → Expr → Prop) (n : Nat)
    (c d : ClassDef) : Prop where
  run : filter c = (d, .ok n)
  rewritten : c.Rewritten rule n d
  normal : ∀ b ∈ d.bodyExprs, Normal rule b.2
  again : filter d = (d, .ok 0)

theorem settlesIn_of_settles {replace : Expr → Option Expr} {rule : Expr → Expr → Prop}
    (h : Settles replace rule) (c : ClassDef) :
    SettlesIn (fun c => .done (c.countBodies (·.mapUpCounting replace))) rule
      (c.bodyExprs.map fun b => (b.2.mapUpCounting replace).2).sum c
      (c.mapBodies fun _ e => (e.mapUpCounting replace).1) := by
  have hnormal : ∀ b ∈ (c.mapBodies fun _ e => (e.mapUpCounting replace).1).bodyExprs,
      Normal rule b.2 := by
    rw [ClassDef.bodyExprs_mapBodies, List.forall_mem_map]
    exact fun b _ => h.normal_visit b.2
  refine ⟨?_, ⟨_, fun e => (e.mapUpCounting replace).2, rfl, rfl, fun b _ => h.steps b.2⟩,
    hnormal, ?_⟩
  · rw [ClassDef.countBodies_eq]
    rfl
  · generalize c.mapBodies _ = d at hnormal ⊢
    have hsame : d.mapBodies (fun _ e => (e.mapUpCounting replace).1) = d :=
      ClassDef.mapBodies_eq_self_iff.mpr fun b hb => h.visit_eq_self_iff.mpr (hnormal b hb)
    have hzero : (d.bodyExprs.map fun b => (b.2.mapUpCounting replace).2).sum = 0 :=
      List.sum_eq_zero_iff_forall_eq_nat.mpr (List.forall_mem_map.mpr fun b hb => by
        rw [h.visit_of_normal (hnormal b hb)])
    rw [ClassDef.countBodies_eq, hsame, hzero]
    rfl

/-! ## Casts -/

/-- A cast of a cast that has no type becomes one cast. -/
inductive MergesCasts : Expr → Expr → Prop
  | mk (e : Expr) (type : Option ComplexType) (inner pos : Position) :
    MergesCasts ⟨.cast ⟨.cast e none, inner⟩ type, pos⟩ ⟨.cast e type, pos⟩

def isCast : Expr → Bool
  | ⟨.cast _ _, _⟩ => true
  | _ => false

theorem mergeCasts_eq_some_iff {e e' : Expr} : mergeCasts e = some e' ↔ MergesCasts e e' := by
  constructor
  · intro h
    unfold mergeCasts at h
    split at h
    · cases h
      exact .mk _ _ _ _
    · cases h
  · rintro ⟨e, type, inner, pos⟩
    rfl

theorem settles_mergeCasts : Settles mergeCasts MergesCasts where
  answers := mergeCasts_eq_some_iff
  normal := by
    rintro _ _ hparts ⟨e, type, inner, pos⟩
    -- The inner cast is settled, so what it casts is no cast without a type.
    obtain ⟨hinner, he⟩ := normal_iff.mp (hparts _ (.head _))
    refine normal_iff.mpr ⟨?_, fun child hchild => he child hchild⟩
    rintro - ⟨e, -, inner', -⟩
    exact hinner _ (.mk e none inner' inner)

theorem Steps.countNodes_isCast {n : Nat} {e e' : Expr} (h : Steps MergesCasts n e e') :
    e.countNodes isCast = e'.countNodes isCast + n := by
  refine h.countNodes_eq ?_ fun e es hes => ?_
  · rintro _ _ ⟨e, type, inner, pos⟩
    simp [countNodes_eq, children, ExprKind.children, isCast]
  · obtain ⟨kind, pos⟩ := e
    exact ExprKind.of_withChildren (k := fun kind => isCast ⟨kind, pos⟩)
      (fun g kind => by cases kind <;> rfl) hes

/-! ## Exceptions -/

/-- What is thrown and is no exception becomes one. -/
inductive WrapsThrown : Expr → Expr → Prop
  | mk {v : Expr} (h : isException v = false) (pos : Position) :
    WrapsThrown ⟨.throw v, pos⟩ ⟨.throw ⟨.call (thrown pos) [v], pos⟩, pos⟩

theorem wrapThrown_eq_some_iff {e e' : Expr} : wrapThrown e = some e' ↔ WrapsThrown e e' := by
  constructor
  · intro h
    unfold wrapThrown at h
    split at h
    · split at h
      · cases h
      · cases h
        exact .mk (Bool.eq_false_iff.mpr (by assumption)) _
    · cases h
  · rintro ⟨h, pos⟩
    simp [wrapThrown, h]

theorem normal_thrown (pos : Position) : Normal WrapsThrown (thrown pos) := by
  rintro node hnode e' @⟨v, -, pos'⟩
  simp [thrown, ident, nodes_eq, children, ExprKind.children] at hnode

theorem settles_wrapThrown : Settles wrapThrown WrapsThrown where
  answers := wrapThrown_eq_some_iff
  normal := by
    rintro _ _ hparts @⟨v, -, pos⟩
    have hcall : Normal WrapsThrown ⟨.call (thrown pos) [v], pos⟩ :=
      normal_iff.mpr ⟨nofun, List.forall_mem_cons.mpr ⟨normal_thrown pos, hparts⟩⟩
    refine normal_iff.mpr ⟨fun e' h => ?_, List.forall_mem_singleton.mpr hcall⟩
    cases h with
    | mk hvalue => cases hvalue

def settle (e : Expr) : Expr := (e.mapUpCounting wrapThrown).1

theorem settle_eq (kind : ExprKind) (pos : Position) :
    settle ⟨kind, pos⟩ =
      match kind with
      | .throw v =>
        let v := settle v
        ⟨.throw (if isException v then v else ⟨.call (thrown pos) [v], pos⟩), pos⟩
      | kind => ⟨kind.mapChildren settle, pos⟩ := by
  rw [settle, mapUpCounting_eq, visitRoot]
  change (wrapThrown ⟨kind.mapChildren settle, pos⟩).getD ⟨kind.mapChildren settle, pos⟩ = _
  cases kind with
  | throw v =>
    dsimp only [ExprKind.mapChildren, wrapThrown]
    cases isException (settle v) <;> rfl
  | _ => rfl

theorem isException_settle (e : Expr) : isException (settle e) = isException e := by
  obtain ⟨kind, pos⟩ := e
  rw [settle_eq]
  cases kind with
  | call callee args =>
    obtain ⟨kind, pos'⟩ := callee
    change isException ⟨.call (settle ⟨kind, pos'⟩) (args.map settle), pos⟩ = _
    rw [settle_eq]
    cases kind <;> rfl
  | _ => rfl

/-! ### What is thrown -/

def throws (e : Expr) : List (Expr × Position) :=
  e.nodes.filterMap fun
    | ⟨.throw v, pos⟩ => some (v, pos)
    | _ => none

theorem mem_throws_iff {e v : Expr} {pos : Position} :
    (v, pos) ∈ throws e ↔ ⟨.throw v, pos⟩ ∈ e.nodes := by
  rw [throws, List.mem_filterMap]
  constructor
  · rintro ⟨⟨kind, pos'⟩, hnode, heq⟩
    cases kind <;> cases heq
    exact hnode
  · exact fun hnode => ⟨_, hnode, rfl⟩

theorem throws_eq (kind : ExprKind) (pos : Position) :
    throws ⟨kind, pos⟩ =
      match kind with
      | .throw v => (v, pos) :: throws v
      | kind => kind.children.flatMap throws := by
  have hparts (es : List Expr) : (es.flatMap nodes).filterMap (fun
      | ⟨.throw v, pos⟩ => some (v, pos)
      | _ => none) = es.flatMap throws := List.filterMap_flatMap
  rw [throws, nodes_eq, List.filterMap_cons, hparts]
  cases kind with
  | throw v => exact congrArg _ (List.flatMap_singleton ..)
  | _ => rfl

/-- What is thrown in place of `t.1`: an exception stays, with what is thrown inside it settled, and
anything else is wrapped. -/
def settleThrown (t : Expr × Position) : Expr × Position :=
  (if isException t.1 then settle t.1 else ⟨.call (thrown t.2) [settle t.1], t.2⟩, t.2)

theorem throws_settle (e : Expr) : throws (settle e) = (throws e).map settleThrown := by
  induction e using Expr.induction_children with
  | h e ih =>
    obtain ⟨kind, pos⟩ := e
    have hparts : (kind.mapChildren settle).children.flatMap throws =
        (kind.children.flatMap throws).map settleThrown := by
      rw [ExprKind.children_mapChildren, List.flatMap_map, List.map_flatMap]
      exact List.flatMap_congr ih
    rw [settle_eq, throws_eq]
    cases kind with
    | throw v =>
      have hv : throws (settle v) = (throws v).map settleThrown := ih v (.head _)
      have hcall : throws ⟨.call (thrown pos) [settle v], pos⟩ = throws (settle v) := by
        simp [throws_eq, thrown, ident, ExprKind.children]
      dsimp only
      rw [isException_settle, throws_eq, List.map_cons, ← hv, settleThrown]
      dsimp only
      split
      · rfl
      · rw [hcall]
    | _ =>
      dsimp only
      rw [throws_eq]
      exact hparts

theorem normal_iff_throws {e : Expr} :
    Normal WrapsThrown e ↔ ∀ t ∈ throws e, isException t.1 = true := by
  constructor
  · rintro h ⟨v, pos⟩ hv
    refine Bool.not_eq_false _ ▸ fun hvalue => ?_
    exact h _ (mem_throws_iff.mp hv) _ (.mk hvalue pos)
  · rintro h node hnode e' @⟨v, hvalue, pos⟩
    cases hvalue.symm.trans (h _ (mem_throws_iff.mpr hnode))

theorem settle_of_isException {v : Expr} (h : isException v = true) :
    settle v = { v with kind := v.kind.mapChildren settle } := by
  obtain ⟨kind, pos⟩ := v
  rw [settle_eq]
  cases kind <;> first | rfl | cases h

/-! ## One visit -/

/-- Each of the two filters leaves nothing to do for itself. As many casts disappear as are counted.
Of what is thrown, exceptions stay but for what is thrown inside them, and are the same if only
exceptions are; everything else is wrapped once. -/
theorem replacements_settle (c : ClassDef) :
    (∃ d n, SettlesIn abstractCast MergesCasts n c d ∧
      (∀ b ∈ d.bodyExprs, ∀ e type inner pos,
        ⟨.cast ⟨.cast e none, inner⟩ type, pos⟩ ∉ b.2.nodes) ∧
      c.countNodes isCast = d.countNodes isCast + n) ∧
    ∃ d n, SettlesIn throwing WrapsThrown n c d ∧
      (∀ b ∈ d.bodyExprs, ∀ v pos, ⟨.throw v, pos⟩ ∈ b.2.nodes → isException v = true) ∧
      (d.bodyExprs.flatMap fun b => throws b.2) =
        (c.bodyExprs.flatMap fun b => throws b.2).map settleThrown ∧
      (∀ v, isException v = true → settle v = { v with kind := v.kind.mapChildren settle }) ∧
      ∀ e, settle e = e ↔ ∀ t ∈ throws e, isException t.1 = true := by
  have hcasts := settlesIn_of_settles settles_mergeCasts c
  have hthrows := settlesIn_of_settles settles_wrapThrown c
  refine ⟨⟨_, _, hcasts, ?_, ?_⟩, ⟨_, _, hthrows, ?_, ?_, ?_, ?_⟩⟩
  · exact fun b hb e type inner pos hnode => hcasts.normal b hb _ hnode _ (.mk e type inner pos)
  · exact hcasts.rewritten.countNodes_eq Steps.countNodes_isCast
  · exact fun b hb v pos hnode =>
      normal_iff_throws.mp (hthrows.normal b hb) (v, pos) (mem_throws_iff.mpr hnode)
  · rw [ClassDef.bodyExprs_mapBodies, List.flatMap_map, List.map_flatMap]
    exact List.flatMap_congr fun b _ => throws_settle b.2
  · exact fun v => settle_of_isException
  · exact fun e => settles_wrapThrown.visit_eq_self_iff.trans normal_iff_throws

/-- Of `throw new Error(throw 1)` only the inner throw is wrapped. -/
example :
    let failing (value : Expr) : Expr := ⟨.throw value, .null⟩
    let error (value : Expr) : Expr := ⟨.new ⟨[], "Error", [], none⟩ [value], .null⟩
    settle (failing (error (failing (.int "1" .null)))) =
      failing (error (failing ⟨.call (thrown .null) [.int "1" .null], .null⟩)) := rfl

end Filter

end HaxeMacro
