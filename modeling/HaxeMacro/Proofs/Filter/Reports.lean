import HaxeMacro.Proofs.Filter.Boxing
import HaxeMacro.Proofs.Filter.Hoisting
import HaxeMacro.Proofs.Filter.Reflush
import HaxeMacro.Proofs.Filter.Replacements

/-! # Reported changes

Each filter counts in its own way: casts, variables, throws, names, or whether a list is another
one. Still, no count is zero if the class is another one, and none is above zero if it is the same.
-/

namespace HaxeMacro

theorem FilterStats.modified_add_iff (name : String) (count : Nat) :
    (FilterStats.add [] name count).modified = true ↔ count ≠ 0 := by
  by_cases h : count = 0 <;> simp [add, modified, Entries.set, h]

/-- If it does not fail, the outcome of a filter counts changes if and only if there are any. -/
def Filtered.Truthful (c : ClassDef) (r : Filtered) : Prop :=
  ∀ count, r.2 = .ok count → (count = 0 ↔ r.1 = c)

namespace Filtered

variable {c d : ClassDef} {count : Nat}

theorem truthful_done (h : count = 0 ↔ d = c) : Truthful c (.done (d, count)) := by
  rintro _ ⟨⟩
  exact h

theorem truthful_same (c : ClassDef) : Truthful c (.done (c, 0)) :=
  truthful_done (iff_of_true rfl rfl)

theorem truthful_other (hcount : count ≠ 0) (h : d ≠ c) : Truthful c (.done (d, count)) :=
  truthful_done (iff_of_false hcount h)

theorem truthful_countBodies {f : Expr → Expr × Nat} (h : ∀ e, (f e).2 = 0 ↔ (f e).1 = e)
    (c : ClassDef) : Truthful c (.done (c.countBodies f)) := by
  rw [ClassDef.countBodies_eq]
  refine truthful_done ?_
  rw [List.sum_eq_zero_iff_forall_eq_nat, List.forall_mem_map, ClassDef.mapBodies_eq_self_iff]
  exact forall₂_congr fun b _ => h b.2

theorem Truthful.modified_iff {r : Filtered} (h : r.Truthful c) (hrun : r = (d, .ok count))
    (name : String) : (FilterStats.add [] name count).modified = true ↔ d ≠ c := by
  subst hrun
  rw [FilterStats.modified_add_iff, ne_eq, ne_eq, h count rfl]

end Filtered

namespace Filter

open Expr Filtered

/-! ## Static locals -/

/-- Where a body declares no static variable, taking them out leaves it as it is. Declarations
without any variable would become blocks. -/
theorem fst_splitStatics_eq_self {e : Expr} (hdeclare : ∀ node ∈ e.nodes, node.kind ≠ .vars [])
    (hstatics : e.outerStatics = []) : (splitStatics e).1 = e := by
  induction e using Expr.induction_children with
  | h e ih =>
    obtain ⟨hroot, hparts⟩ := forall_mem_nodes.mp hdeclare
    obtain hfunction | ⟨vs, pos, rfl⟩ | ⟨hnone, hfunction, hvars⟩ := takeStatics_cases e
    · rw [splitStatics_function hfunction]
    · rw [outerStatics, outerVars_vars] at hstatics
      have hlocals : vs.filter (fun v => !v.isStatic) = vs :=
        List.filter_eq_self.mpr fun v hv => by simpa using List.filter_eq_nil_iff.mp hstatics v hv
      rw [splitStatics_vars, hlocals]
      cases vs with
      | nil => exact absurd rfl hroot
      | cons v vs => rfl
    · rw [outerStatics, outerVars_parts hfunction hvars, List.filter_flatMap,
        List.flatMap_eq_nil_iff] at hstatics
      have hsame (child : Expr) (hchild : child ∈ e.children) : (splitStatics child).1 = child :=
        ih child hchild (hparts child hchild) (hstatics child hchild)
      obtain ⟨kind, pos⟩ := e
      rw [splitStatics_parts hnone, ExprKind.mapChildren_congr hsame, ExprKind.mapChildren_id]

theorem Hoisting.hoistBody_eq_self {e : Expr} (hdeclare : ∀ node ∈ e.nodes, node.kind ≠ .vars [])
    (hstatics : e.outerStatics = []) (field : String) : hoistBody field e = e := by
  have hrename : rename field [] = id := funext fun name => if_neg List.not_mem_nil
  rw [hoistBody, fst_splitStatics_eq_self hdeclare hstatics, hstatics, List.map_nil, hrename,
    renameIdents_id]

theorem truthful_localStatic {c : ClassDef}
    (hdeclare : ∀ b ∈ c.bodyExprs, ∀ node ∈ b.2.nodes, node.kind ≠ .vars []) :
    Truthful c (localStatic c) := by
  intro count hcount
  generalize hrun : localStatic c = r at hcount ⊢
  obtain ⟨d, outcome⟩ := r
  cases hcount
  obtain ⟨rfl, rfl, -⟩ := localStatic_ok hrun
  constructor
  · intro hzero
    have hnone : hoisted c = [] := List.length_eq_zero_iff.mp hzero
    have hsame : c.mapBodies Hoisting.hoistBody = c := by
      refine ClassDef.mapBodies_eq_self_iff.mpr fun b hb => ?_
      have hmembers : Hoisting.members b.1 b.2 = [] := List.flatMap_eq_nil_iff.mp hnone b hb
      exact Hoisting.hoistBody_eq_self (hdeclare b hb) (List.map_eq_nil_iff.mp hmembers) b.1
    rw [hoist, hnone, hsame, List.append_nil]
  · intro hsame
    -- What is hoisted makes the list of statics longer.
    have hlength := congrArg (fun d : ClassDef => d.statics.length) hsame
    simpa [hoist, ClassDef.mapBodies] using hlength

/-! ## Captured locals -/

section
variable (names : List String)

/-- No expression is an array of what boxing makes of it. -/
theorem ne_array_mapUp_boxNode (pos : Position) (e : Expr) :
    e ≠ ⟨.array [e.mapUp (boxNode names)], pos⟩ := by
  induction e using Expr.induction_children with
  | h e ih =>
    generalize hitem : e.mapUp (boxNode names) = item
    rintro rfl
    -- Boxing leaves arrays alone, so the only item would be such an array again.
    exact ih item (.head _) (hitem.symm.trans (mapUp_eq _ _ _))

variable {names}

theorem mapUp_boxNode_parts_eq {kind : ExprKind} {pos : Position} (hbox : isBoxable kind = false)
    (h : (⟨kind, pos⟩ : Expr).mapUp (boxNode names) = ⟨kind, pos⟩) :
    ∀ e ∈ kind.children, e.mapUp (boxNode names) = e := by
  have hparts : isBoxable (kind.mapChildren (·.mapUp (boxNode names))) = false := by
    cases kind <;> exact hbox
  rw [mapUp_eq, boxNode_of_not_isBoxable hparts] at h
  have hchildren := congrArg children h
  rw [children, ExprKind.children_mapChildren] at hchildren
  exact List.map_inj_left.mp (hchildren.trans (List.map_id _).symm)

theorem mapUp_boxNode_vars_eq {vs : List Var} {pos : Position}
    (h : (⟨.vars vs, pos⟩ : Expr).mapUp (boxNode names) = ⟨.vars vs, pos⟩) :
    ∀ v ∈ vs, v.name ∉ names ∧ ∀ e ∈ v.init, e.mapUp (boxNode names) = e := by
  rw [mapUp_eq] at h
  have hvars : (vs.map fun v => { v with init := v.init.map (·.mapUp (boxNode names)) }).map
      (boxVar names pos) = vs := ExprKind.vars.inj (Expr.mk.inj h).1
  rw [List.map_map] at hvars
  intro v hv
  have hbox := List.map_inj_left.mp (hvars.trans (List.map_id vs).symm) v hv
  have hinit := congrArg Var.init hbox
  by_cases hname : v.name ∈ names
  · simp only [Function.comp_apply, boxVar, hname, if_true, id] at hinit
    cases hv' : v.init with
    | none =>
      rw [hv'] at hinit
      cases hinit
    | some e =>
      rw [hv'] at hinit
      exact absurd (Option.some.inj hinit).symm (ne_array_mapUp_boxNode names pos e)
  · simp only [Function.comp_apply, boxVar, hname, if_false, id] at hinit
    refine ⟨hname, fun e he => ?_⟩
    rw [he] at hinit
    exact Option.some.inj hinit

/-- What boxing leaves as it is declares none of the boxed locals. -/
theorem not_mem_of_mapUp_boxNode_eq {e : Expr} (h : e.mapUp (boxNode names) = e) :
    ∀ v ∈ e.localVars, v.name ∉ names := by
  induction e using Expr.induction_children with
  | h e ih =>
    obtain ⟨kind, pos⟩ := e
    have hparts (hsame : ∀ child ∈ kind.children, child.mapUp (boxNode names) = child) :
        ∀ v ∈ kind.children.flatMap localVars, v.name ∉ names :=
      List.forall_mem_flatMap.mpr fun child hchild => ih child hchild (hsame child hchild)
    cases hbox : isBoxable kind with
    | true =>
      cases kind with
      | const => exact fun v hv => nomatch hv
      | vars vs =>
        have hvs := mapUp_boxNode_vars_eq h
        rw [localVars_vars, List.forall_mem_append]
        refine ⟨fun v hv => (hvs v hv).1, hparts fun e he => ?_⟩
        obtain ⟨v, hv, hinit⟩ := List.mem_filterMap.mp he
        exact (hvs v hv).2 e hinit
      | _ => cases hbox
    | false =>
      have hvars : vars ⟨kind, pos⟩ = [] := by
        cases kind <;> first | rfl | cases hbox
      rw [localVars_eq, hvars, List.nil_append]
      split
      · exact fun v hv => nomatch hv
      · exact hparts (mapUp_boxNode_parts_eq hbox h)

theorem snd_boxCaptured_eq_zero_iff (e : Expr) : (boxCaptured e).2 = 0 ↔ (boxCaptured e).1 = e := by
  unfold boxCaptured
  cases hnames : boxedNames e with
  | nil => exact iff_of_true rfl rfl
  | cons name names =>
    refine iff_of_false (Nat.succ_ne_zero _) fun hsame => ?_
    have hname : name ∈ boxedNames e := hnames ▸ .head _
    have hdeclared : name ∈ declaredNames e :=
      (List.mem_filter.mp (List.mem_eraseDups.mp hname)).1
    rw [declaredNames_eq] at hdeclared
    obtain ⟨v, hv, rfl⟩ := List.mem_map.mp hdeclared
    exact not_mem_of_mapUp_boxNode_eq hsame v hv (.head _)

end

/-! ## Whole classes -/

variable (c : ClassDef)

theorem truthful_stripGenericBase : Truthful c (stripGenericBase c) := by
  unfold stripGenericBase
  split
  · exact truthful_same c
  · rename_i hcond
    refine truthful_other Nat.one_ne_zero fun hsame => hcond ?_
    have hexcluded : true = c.excluded := congrArg ClassDef.excluded hsame
    rw [← hexcluded, Bool.true_or, Bool.true_or]

theorem truthful_addExceptionConstructor : Truthful c (addExceptionConstructor c) := by
  unfold addExceptionConstructor
  dsimp only
  split
  · exact truthful_same c
  · rename_i hcond
    refine truthful_other Nat.one_ne_zero fun hsame => hcond ?_
    have hconstructor : some (exceptionConstructor c.pos) = c.constructor :=
      congrArg ClassDef.constructor hsame
    rw [← hconstructor, Option.isSome_some, Bool.or_true, Bool.true_or]

theorem truthful_fieldInit : Truthful c (fieldInit c) := by
  unfold fieldInit
  split
  · exact truthful_same c
  · cases hinits : c.fields.filterMap initAssignment with
    | nil => exact truthful_same c
    | cons assignment assignments =>
      refine truthful_other (Nat.succ_ne_zero _) fun hsame => ?_
      have hfields : c.fields.map dropInit = c.fields := congrArg ClassDef.fields hsame
      have hnone : (c.fields.map dropInit).filterMap initAssignment = [] := by
        simp [List.filterMap_map, initAssignment_dropInit]
      rw [hfields, hinits] at hnone
      cases hnone

theorem truthful_cacheDependencies : Truthful c (cacheDependencies c) := by
  have hrun : cacheDependencies c =
      .done (c.noted, if c.dependencies = c.cacheDependencies then 0 else 1) := rfl
  rw [hrun]
  refine truthful_done ?_
  rw [ClassDef.noted_eq_self_iff]
  split
  · rename_i heq
    exact iff_of_true rfl heq
  · rename_i hne
    exact iff_of_false Nat.one_ne_zero hne

theorem truthful_recordSnapshot (cx : FilterContext) : Truthful c (recordSnapshot cx c) := by
  unfold recordSnapshot
  split
  · exact truthful_same c
  · rename_i hrestore
    rw [Bool.not_eq_true, Option.isSome_eq_false_iff, Option.isNone_iff_eq_none] at hrestore
    refine truthful_done ?_
    cases hsnapshot : cx.snapshot with
    | none =>
      refine iff_of_true rfl ?_
      rw [← hrestore]
    | some s =>
      refine iff_of_false Nat.one_ne_zero fun hsame => ?_
      cases (congrArg ClassDef.restore hsame).trans hrestore

theorem truthful_nativePath : Truthful c (nativePath c) := by
  unfold nativePath
  split
  · exact truthful_same c
  · split
    · rename_i path _
      split
      · exact truthful_same c
      · rename_i hpath
        exact truthful_other Nat.one_ne_zero fun hsame => hpath (congrArg ClassDef.path hsame)
    · exact truthful_same c

end Filter

/-! ## All filters -/

theorem BodyFilter.truthful_run (f : BodyFilter) {c : ClassDef}
    (hdeclare : ∀ b ∈ c.bodyExprs, ∀ node ∈ b.2.nodes, node.kind ≠ .vars []) :
    (f.run c).Truthful c := by
  cases f with
  | abstractCast =>
    exact Filtered.truthful_countBodies (fun _ => Filter.settles_mergeCasts.count_eq_zero_iff) c
  | localStatic => exact Filter.truthful_localStatic hdeclare
  | throwing =>
    exact Filtered.truthful_countBodies (fun _ => Filter.settles_wrapThrown.count_eq_zero_iff) c
  | captureBox => exact Filtered.truthful_countBodies Filter.snd_boxCaptured_eq_zero_iff c

theorem TypeFilter.truthful_run (f : TypeFilter) (cx : FilterContext) (c : ClassDef) :
    (f.run cx c).Truthful c := by
  cases f with
  | stripGenericBase => exact Filter.truthful_stripGenericBase c
  | exceptionConstructor => exact Filter.truthful_addExceptionConstructor c
  | fieldInit => exact Filter.truthful_fieldInit c
  | cacheDependencies => exact Filter.truthful_cacheDependencies c
  | recordSnapshot => exact Filter.truthful_recordSnapshot c cx
  | nativePath => exact Filter.truthful_nativePath c

theorem BodyFilter.eq_localStatic_of_run_error {f : BodyFilter} {c : ClassDef} {e : FilterError}
    (h : (f.run c).2 = .error e) : f = .localStatic := by
  cases f <;> first | rfl | cases h

/-- If no body declares nothing with `var`, each filter reports a change if and only if it leaves
another class. The filters on whole classes always finish, and of the filters on bodies all but
one. -/
theorem filters_report_changes {c : ClassDef}
    (hdeclare : ∀ b ∈ c.bodyExprs, ∀ node ∈ b.2.nodes, node.kind ≠ .vars [])
    (cx : FilterContext) :
    (∀ f ∈ FilterPipeline.default.bodies,
      match f.run c with
      | (d, .ok count) => (FilterStats.add [] f.name count).modified = true ↔ d ≠ c
      | (_, .error _) => f = .localStatic) ∧
    ∀ f ∈ FilterPipeline.default.types, ∃ d count, f.run cx c = (d, .ok count) ∧
      ((FilterStats.add [] f.name count).modified = true ↔ d ≠ c) := by
  constructor
  · intro f _
    have htruthful := f.truthful_run hdeclare
    split
    · rename_i d count hrun
      exact htruthful.modified_iff hrun f.name
    · rename_i d e hrun
      exact BodyFilter.eq_localStatic_of_run_error (congrArg Prod.snd hrun)
  · intro f _
    obtain ⟨d, count, hrun, -⟩ := f.run_spec cx c
    exact ⟨d, count, hrun, (f.truthful_run cx c).modified_iff hrun f.name⟩

theorem filters_report_changes_counting :
    ∃ d, Filter.localStatic (Filter.withRun Filter.countingBody) = (d, .ok 1) ∧
      d ≠ Filter.withRun Filter.countingBody := by
  have hdeclare : ∀ b ∈ (Filter.withRun Filter.countingBody).bodyExprs, ∀ node ∈ b.2.nodes,
      node.kind ≠ .vars [] := by
    intro b hb
    obtain rfl := List.mem_singleton.mp hb
    simp [Filter.countingBody, Filter.declare, Expr.nodes_eq, Expr.children, ExprKind.children,
      Expr.ident, Expr.int]
  have hreport := (filters_report_changes hdeclare ⟨⟨["demo"], "Foo"⟩, none⟩).1 .localStatic
    (.tail _ (.head _))
  exact ⟨_, rfl, hreport.mp rfl⟩

/-- A body that declares nothing with `var` is changed without a report. -/
example : Filter.localStatic (Filter.withRun ⟨.vars [], .null⟩) =
    (Filter.withRun ⟨.block [], .null⟩, .ok 0) := rfl

end HaxeMacro
