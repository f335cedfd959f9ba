import HaxeMacro.Proofs.Filter.Snapshots
import HaxeMacro.Proofs.Dependency.PathOrder

/-! # Flushing a flushed class

The filters on whole classes run on every flush. What they leave, none of them changes again, except
for the dependencies: these are noted before an extern class takes its native path, and without the
path that the class has by then. So a second flush changes the dependencies of a renamed class that
names its old path or its new one, and a third flush changes nothing.
-/

namespace HaxeMacro

namespace Path

theorem sortDistinct_without_eq_iff {p q : Path} {paths : List Path} :
    sortDistinct (paths.filter (· != p)) = sortDistinct (paths.filter (· != q)) ↔
      p = q ∨ p ∉ paths ∧ q ∉ paths := by
  constructor
  · intro heq
    have hmem (r : Path) : r ∈ paths ∧ r ≠ p ↔ r ∈ paths ∧ r ≠ q := by
      have := congrArg (r ∈ ·) heq
      simpa using this
    by_cases hpq : p = q
    · exact .inl hpq
    · refine .inr ⟨fun hp => ?_, fun hq => ?_⟩
      · exact ((hmem p).mpr ⟨hp, hpq⟩).2 rfl
      · exact ((hmem q).mp ⟨hq, Ne.symm hpq⟩).2 rfl
  · rintro (rfl | ⟨hp, hq⟩)
    · rfl
    · have hall {r : Path} (hr : r ∉ paths) : paths.filter (· != r) = paths :=
        List.filter_eq_self.mpr fun s hs => bne_iff_ne.mpr (ne_of_mem_of_not_mem hs hr)
      rw [hall hp, hall hq]

end Path

/-! ## What the filters leave -/

namespace ClassDef

def dependencies (c : ClassDef) : List Path :=
  Path.sortDistinct ((Filter.namedPaths c).filter (· != c.path))

def programPath (c : ClassDef) : Path :=
  if c.isExtern then (Filter.nativePath? c).getD c.path else c.path

/-- A class of which the filters on whole classes change the dependencies at most. -/
structure Complete (c : ClassDef) : Prop where
  template : (c.excluded || c.params.isEmpty || !c.hasAnnotation ":generic") = true
  exception : (!(c.super.any fun s => s.1 == Filter.exceptionPath) || c.constructor.isSome ||
    c.isExtern) = true
  inits : (c.isExtern || c.isInterface) = true ∨ c.fields.filterMap Filter.initAssignment = []
  path : c.programPath = c.path

def noted (c : ClassDef) : ClassDef := c.withCache c.restore c.dependencies

theorem noted_noted (c : ClassDef) : c.noted.noted = c.noted := rfl

theorem noted_eq_self_iff {c : ClassDef} : c.noted = c ↔ c.dependencies = c.cacheDependencies := by
  constructor
  · exact congrArg cacheDependencies
  · intro h
    rw [noted, h]
    rfl

theorem Complete.noted {c : ClassDef} (h : c.Complete) : c.noted.Complete :=
  ⟨h.template, h.exception, h.inits, h.path⟩

end ClassDef

namespace Filter

variable {c : ClassDef}

theorem stripGenericBase_of_complete (h : c.Complete) : stripGenericBase c = .done (c, 0) :=
  if_pos h.template

theorem addExceptionConstructor_of_complete (h : c.Complete) :
    addExceptionConstructor c = .done (c, 0) :=
  if_pos h.exception

theorem fieldInit_of_complete (h : c.Complete) : fieldInit c = .done (c, 0) := by
  unfold fieldInit
  rcases h.inits with hkind | hinits
  · rw [if_pos hkind]
  · rw [hinits, ite_self]

theorem nativePath_of_complete (h : c.Complete) : nativePath c = .done (c, 0) := by
  have hpath := h.path
  unfold nativePath
  cases hextern : c.isExtern with
  | false => rfl
  | true =>
    rw [ClassDef.programPath, if_pos hextern] at hpath
    cases hnative : nativePath? c with
    | none => rfl
    | some path =>
      rw [hnative, Option.getD_some] at hpath
      simp [hpath]

theorem recordSnapshot_own (c : ClassDef) (module : Path) :
    recordSnapshot ⟨module, c.restore⟩ c = .done (c, 0) := by
  obtain ⟨⟩ := c
  rename Option Snapshot => restore
  cases restore <;> rfl

theorem nativePath_fst (c : ClassDef) : (nativePath c).1 = { c with path := c.programPath } := by
  obtain ⟨⟩ := c
  rename Path => path
  rename_i isExtern _ _ _ _ _ _ _ _ _ _ _
  unfold nativePath ClassDef.programPath
  cases isExtern with
  | false => rfl
  | true =>
    simp only [Bool.not_true, Bool.false_eq_true, if_false, if_true]
    split
    · rename_i native hnative
      rw [hnative]
      split <;> simp_all [Filtered.done]
    · rename_i hnative
      rw [hnative]
      rfl

theorem stripGenericBase_fst (c : ClassDef) :
    ∃ excluded, (stripGenericBase c).1 = { c with excluded } ∧
      (excluded || c.params.isEmpty || !c.hasAnnotation ":generic") = true := by
  unfold stripGenericBase
  split
  · exact ⟨c.excluded, rfl, by assumption⟩
  · exact ⟨true, rfl, by rw [Bool.true_or, Bool.true_or]⟩

theorem addExceptionConstructor_fst (c : ClassDef) :
    ∃ constructor, (addExceptionConstructor c).1 = { c with constructor } ∧
      (!(c.super.any fun s => s.1 == exceptionPath) || constructor.isSome ||
        c.isExtern) = true := by
  unfold addExceptionConstructor
  dsimp only
  split
  · exact ⟨c.constructor, rfl, by assumption⟩
  · exact ⟨some (exceptionConstructor c.pos), rfl, by simp⟩

theorem initAssignment_dropInit (m : Member) : initAssignment (dropInit m) = none := by
  cases hmethod : m.isMethod with
  | true => simp [dropInit, initAssignment, hmethod]
  | false =>
    have hdropped : { m with body := none }.isMethod = false := hmethod
    simp [dropInit, initAssignment, hmethod, hdropped]

theorem fieldInit_fst (c : ClassDef) :
    ∃ fields constructor, (fieldInit c).1 = { c with fields, constructor } ∧
      (c.constructor.isSome = true → constructor.isSome = true) ∧
      ((c.isExtern || c.isInterface) = true ∨ fields.filterMap initAssignment = []) := by
  unfold fieldInit
  split
  · rename_i hkind
    exact ⟨c.fields, c.constructor, rfl, id, .inl hkind⟩
  · split
    · rename_i hinits
      exact ⟨c.fields, c.constructor, rfl, id, .inr hinits⟩
    · refine ⟨_, _, rfl, fun _ => rfl, .inr ?_⟩
      simp [List.filterMap_map, initAssignment_dropInit]

end Filter

namespace TypeFilter

variable (cx : FilterContext)

/-- Each of the first three filters keeps what the ones before it have done. -/
theorem foldl_apply_first (c : ClassDef) :
    ∃ excluded fields constructor,
      [stripGenericBase, exceptionConstructor, fieldInit].foldl (apply cx) c =
        { c with excluded, fields, constructor } ∧
      ∀ restore dependencies,
        ({ c with excluded, fields, constructor,
                  path := c.programPath }.withCache restore dependencies).Complete := by
  obtain ⟨excluded, hstrip, htemplate⟩ := Filter.stripGenericBase_fst c
  obtain ⟨constructor, hexception, hconstructor⟩ :=
    Filter.addExceptionConstructor_fst { c with excluded }
  obtain ⟨fields, constructor', hinit, hkept, hinits⟩ :=
    Filter.fieldInit_fst { c with excluded, constructor }
  refine ⟨excluded, fields, constructor', ?_, fun restore dependencies => ?_⟩
  · simp only [List.foldl_cons, List.foldl_nil, apply, run, hstrip, hexception, hinit]
  · refine ⟨htemplate, ?_, hinits, ?_⟩
    · simp only [Bool.or_eq_true] at hconstructor ⊢
      exact hconstructor.imp_left (Or.imp_right hkept)
    · -- The native path is in the annotations, which no filter changes.
      change (if c.isExtern then (Filter.nativePath? c).getD c.programPath else c.programPath) =
        c.programPath
      unfold ClassDef.programPath
      split
      · cases Filter.nativePath? c <;> rfl
      · rfl

theorem foldl_apply_last (c : ClassDef) :
    [cacheDependencies, recordSnapshot, nativePath].foldl (apply cx) c =
      { c.withCache (c.restore.or cx.snapshot) c.dependencies with path := c.programPath } := by
  have hsnapshot (c : ClassDef) : (Filter.recordSnapshot cx c).1 =
      c.withCache (c.restore.or cx.snapshot) c.cacheDependencies := apply_recordSnapshot cx c
  simp only [List.foldl_cons, List.foldl_nil, apply, run, Filter.nativePath_fst, hsnapshot]
  rfl

end TypeFilter

namespace FilterPipeline

/-- What a flush leaves is complete. Its dependencies are without the path that the class had
before. -/
theorem complete_of_run {cx : FilterContext} {c d : ClassDef} {stats : FilterStats}
    (h : default.run cx c = (d, .ok stats)) :
    d.Complete ∧ d.filtered = true ∧
      d.cacheDependencies = Path.sortDistinct ((Filter.namedPaths d).filter (· != c.path)) := by
  have htypes {c : ClassDef} {before : FilterStats} (hfiltered : c.filtered = true)
      (h : runAll TypeFilter.name (TypeFilter.run cx) default.types c before = (d, .ok stats)) :
      d.Complete ∧ d.filtered = true ∧
        d.cacheDependencies = Path.sortDistinct ((Filter.namedPaths d).filter (· != c.path)) := by
    obtain ⟨excluded, fields, constructor, hfirst, hcomplete⟩ := TypeFilter.foldl_apply_first cx c
    have hd : d = [.cacheDependencies, .recordSnapshot, .nativePath].foldl (TypeFilter.apply cx)
        { c with excluded, fields, constructor } := by
      rw [← hfirst, ← List.foldl_append]
      exact (congrArg Prod.fst h).symm.trans (fst_runAll_types cx default.types c before)
    rw [TypeFilter.foldl_apply_last] at hd
    rw [hd]
    exact ⟨hcomplete _ _, hfiltered, rfl⟩
  rw [run] at h
  split at h
  · exact htypes (by assumption) h
  · obtain ⟨b, hb⟩ := (onBodies_runAll default.bodies []).withBodies c
    split at h
    · cases h
    · rename_i hbodies
      rw [hbodies] at hb
      cases hb
      exact htypes (c := { c.withBodies b with filtered := true }) rfl h

theorem runAll_cons_of_unchanged {cx : FilterContext} {f : TypeFilter} {c : ClassDef}
    (h : f.run cx c = .done (c, 0)) (fs : List TypeFilter) (stats : FilterStats) :
    runAll TypeFilter.name (TypeFilter.run cx) (f :: fs) c stats =
      runAll TypeFilter.name (TypeFilter.run cx) fs c stats := by
  rw [runAll, h]
  rfl

/-- Flushing a complete class notes its dependencies, and does nothing else. -/
theorem run_of_complete {d : ClassDef} (h : d.Complete) (hfiltered : d.filtered = true)
    (module : Path) :
    default.run ⟨module, d.restore⟩ d = (d.noted,
      .ok (if d.dependencies = d.cacheDependencies then [] else [("cache-dependencies", 1)])) := by
  have hcount : FilterStats.add [] "cache-dependencies"
      (if d.dependencies = d.cacheDependencies then 0 else 1) =
        if d.dependencies = d.cacheDependencies then [] else [("cache-dependencies", 1)] := by
    by_cases heq : d.dependencies = d.cacheDependencies <;>
      simp [heq, FilterStats.add, Entries.set, Entries.get?]
  let cx : FilterContext := ⟨module, d.restore⟩
  have htemplate : TypeFilter.stripGenericBase.run cx d = .done (d, 0) :=
    Filter.stripGenericBase_of_complete h
  have hexception : TypeFilter.exceptionConstructor.run cx d = .done (d, 0) :=
    Filter.addExceptionConstructor_of_complete h
  have hinits : TypeFilter.fieldInit.run cx d = .done (d, 0) := Filter.fieldInit_of_complete h
  have hsnapshot : TypeFilter.recordSnapshot.run cx d.noted = .done (d.noted, 0) :=
    Filter.recordSnapshot_own d.noted module
  have hnative : TypeFilter.nativePath.run cx d.noted = .done (d.noted, 0) :=
    Filter.nativePath_of_complete h.noted
  rw [← hcount, run, if_pos hfiltered, default, runAll_cons_of_unchanged htemplate,
    runAll_cons_of_unchanged hexception, runAll_cons_of_unchanged hinits]
  generalize hstats : FilterStats.add _ _ _ = stats
  calc runAll TypeFilter.name (TypeFilter.run cx) [.cacheDependencies, .recordSnapshot, .nativePath]
        d []
      = runAll TypeFilter.name (TypeFilter.run cx) [.recordSnapshot, .nativePath] d.noted
          stats := by
        rw [← hstats]
        rfl
    _ = (d.noted, .ok stats) := by
        rw [runAll_cons_of_unchanged hsnapshot, runAll_cons_of_unchanged hnative, runAll]

theorem run_unchanged_iff {d : ClassDef} (h : d.Complete) (hfiltered : d.filtered = true)
    (module : Path) :
    (∃ stats, default.run ⟨module, d.restore⟩ d = (d, .ok stats) ∧ stats.modified = false) ↔
      d.dependencies = d.cacheDependencies := by
  rw [run_of_complete h hfiltered]
  constructor
  · rintro ⟨stats, hrun, -⟩
    exact ClassDef.noted_eq_self_iff.mp (congrArg Prod.fst hrun)
  · intro heq
    exact ⟨[], by rw [if_pos heq, ClassDef.noted_eq_self_iff.mpr heq], rfl⟩

/-- A class that was flushed is flushed again without any change, and without a report of one, if it
has its path from before, or names neither that path nor its own. In any case nothing but the
dependencies changes, this is reported, and the third flush changes nothing. -/
theorem reflush_unchanged_iff {cx : FilterContext} {c d : ClassDef} {stats : FilterStats}
    (h : default.run cx c = (d, .ok stats)) (module : Path) :
    ((∃ again, default.run ⟨module, d.restore⟩ d = (d, .ok again) ∧ again.modified = false) ↔
      d.path = c.path ∨ d.path ∉ Filter.namedPaths d ∧ c.path ∉ Filter.namedPaths d) ∧
    ∃ d' again, default.run ⟨module, d.restore⟩ d = (d', .ok again) ∧
      d' = { d with cacheDependencies := d'.cacheDependencies } ∧
      (again.modified = true ↔ d' ≠ d) ∧
      ∀ module', default.run ⟨module', d'.restore⟩ d' = (d', .ok []) := by
  obtain ⟨hcomplete, hfiltered, hdependencies⟩ := complete_of_run h
  refine ⟨?_, d.noted, _, run_of_complete hcomplete hfiltered module, rfl, ?_, fun module' => ?_⟩
  · rw [run_unchanged_iff hcomplete hfiltered, hdependencies, ClassDef.dependencies,
      Path.sortDistinct_without_eq_iff]
  · rw [Ne, ClassDef.noted_eq_self_iff]
    by_cases heq : d.dependencies = d.cacheDependencies <;> simp [heq, FilterStats.modified]
  · have hagain := run_of_complete hcomplete.noted hfiltered module'
    rw [ClassDef.noted_noted] at hagain
    exact hagain.trans (by rw [if_pos (ClassDef.noted_eq_self_iff.mp d.noted_noted)])

theorem reflush_unchanged_counter :
    ∃ d stats, default.run (contextOf counter.module counter) counter = (d, .ok stats) ∧
      ∃ again, default.run ⟨counter.module, d.restore⟩ d = (d, .ok again) ∧
        again.modified = false := by
  obtain ⟨d, stats, hrun, -⟩ := exists_passed
    (show (default.run (contextOf counter.module counter) counter).2.toBool = true by
      decide +kernel)
  have hpath : (default.run (contextOf counter.module counter) counter).1.path = counter.path := by
    decide +kernel
  rw [hrun] at hpath
  exact ⟨d, stats, hrun, (reflush_unchanged_iff hrun counter.module).1.mpr (.inl hpath)⟩

/-! ### Renamed classes -/

def linkedNode : ClassDef :=
  { ClassDef.empty ⟨["demo"], "Node"⟩ ⟨["demo"], "Node"⟩ with
    isExtern := true
    annotations := [⟨":native", [⟨.const (.string "js.Node" .double), .null⟩], .null⟩]
    fields := [.var "next" (.inst ⟨["demo"], "Node"⟩ []) none] }

/-- The second flush of a renamed class lists the class by its old path among its dependencies. -/
theorem reflush_changes_linkedNode :
    ∃ d stats, default.run (contextOf linkedNode.module linkedNode) linkedNode = (d, .ok stats) ∧
      d.cacheDependencies = [] ∧
      ∃ d' again, default.run ⟨linkedNode.module, d.restore⟩ d = (d', .ok again) ∧
        again.modified = true ∧ d'.cacheDependencies = [linkedNode.path] := by
  obtain ⟨d, stats, hrun, -⟩ := exists_passed
    (show (default.run (contextOf linkedNode.module linkedNode) linkedNode).2.toBool = true by
      decide +kernel)
  obtain ⟨hcomplete, hfiltered, -⟩ := complete_of_run hrun
  have hbefore : (default.run (contextOf linkedNode.module linkedNode)
      linkedNode).1.cacheDependencies = [] := by
    decide +kernel
  have hafter : (default.run (contextOf linkedNode.module linkedNode)
      linkedNode).1.dependencies = [linkedNode.path] := by
    decide +kernel
  rw [hrun] at hbefore hafter
  refine ⟨d, stats, hrun, hbefore, d.noted, _,
    run_of_complete hcomplete hfiltered linkedNode.module, ?_, hafter⟩
  rw [if_neg (by rw [hbefore, hafter]; exact List.cons_ne_nil _ _)]
  rfl

end FilterPipeline

end HaxeMacro
