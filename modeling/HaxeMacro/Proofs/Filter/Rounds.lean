import HaxeMacro.Proofs.Filter.Frame

/-! # Rounds of a compilation server

A server takes the classes of a module back to their snapshots and flushes them again. Since the
snapshot holds all that filters change, and filters read nothing that a cache keeps, every round
ends with the class of the first flush.
-/

namespace HaxeMacro

namespace ClassDef

/-- A class that was never flushed. -/
structure Fresh (c : ClassDef) : Prop where
  filtered : c.filtered = false
  excluded : c.excluded = false
  restore : c.restore = none

theorem restoreFrom_snapshot {c : ClassDef} (hfiltered : c.filtered = false)
    (hexcluded : c.excluded = false) : c.restoreFrom c.snapshot = c := by
  obtain ⟨⟩ := c
  cases hfiltered
  cases hexcluded
  rfl

end ClassDef

/-! ## What a cache keeps -/

def IgnoresCache {β : Type} (op : ClassDef → ClassDef × β) : Prop :=
  ∀ c restore dependencies, op (c.withCache restore dependencies) =
    ((op c).1.withCache restore dependencies, (op c).2)

namespace IgnoresCache

theorem ite {β : Type} {p : ClassDef → Prop} {inst : DecidablePred p}
    {op op' : ClassDef → ClassDef × β}
    (hp : ∀ c restore dependencies, p (c.withCache restore dependencies) ↔ p c)
    (h : IgnoresCache op) (h' : IgnoresCache op') :
    IgnoresCache fun c => if p c then op c else op' c := by
  intro c restore dependencies
  by_cases hc : p c
  · simp only [if_pos hc, if_pos ((hp c restore dependencies).mpr hc)]
    exact h c restore dependencies
  · simp only [if_neg hc, if_neg (mt (hp c restore dependencies).mp hc)]
    exact h' c restore dependencies

end IgnoresCache

theorem OnBodies.ignoresCache {β : Type} {op : ClassDef → ClassDef × β} (h : OnBodies op) :
    IgnoresCache op := by
  obtain ⟨change, h⟩ := h
  intro c restore dependencies
  rw [h, h]
  rfl

theorem TypeFilter.ignoresCache_run (cx : FilterContext) {f : TypeFilter}
    (hdeps : f ≠ .cacheDependencies) (hsnapshot : f ≠ .recordSnapshot) :
    IgnoresCache (f.run cx) := by
  cases f with
  | stripGenericBase => exact .ite (fun _ _ _ => Iff.rfl) (fun _ _ _ => rfl) fun _ _ _ => rfl
  | exceptionConstructor => exact .ite (fun _ _ _ => Iff.rfl) (fun _ _ _ => rfl) fun _ _ _ => rfl
  | fieldInit =>
    refine .ite (fun _ _ _ => Iff.rfl) (fun _ _ _ => rfl) fun c _ _ => ?_
    rw [ClassDef.withCache_fields]
    cases c.fields.filterMap Filter.initAssignment <;> rfl
  | nativePath =>
    refine .ite (fun _ _ _ => Iff.rfl) (fun _ _ _ => rfl) fun c restore dependencies => ?_
    have hpath : Filter.nativePath? (c.withCache restore dependencies) = Filter.nativePath? c := rfl
    rw [hpath]
    cases Filter.nativePath? c with
    | none => rfl
    | some path =>
      have h : IgnoresCache fun c =>
          if path = c.path then Filtered.done (c, 0) else Filtered.done ({ c with path }, 1) :=
        .ite (fun _ _ _ => Iff.rfl) (fun _ _ _ => rfl) fun _ _ _ => rfl
      exact h c restore dependencies
  | cacheDependencies => exact absurd rfl hdeps
  | recordSnapshot => exact absurd rfl hsnapshot

/-! ## Flushing once more -/

namespace TypeFilter

variable (cx : FilterContext) (c : ClassDef)

def apply (c : ClassDef) (f : TypeFilter) : ClassDef := (f.run cx c).1

theorem apply_recordSnapshot :
    apply cx c .recordSnapshot = c.withCache (c.restore.or cx.snapshot) c.cacheDependencies := by
  obtain ⟨⟩ := c
  rename Option Snapshot => restore
  cases restore <;> rfl

theorem foldl_apply_withCache {fs : List TypeFilter}
    (hfs : ∀ f ∈ fs, f ≠ .cacheDependencies ∧ f ≠ .recordSnapshot) (restore : Option Snapshot)
    (dependencies : List Path) :
    fs.foldl (apply cx) (c.withCache restore dependencies) =
      (fs.foldl (apply cx) c).withCache restore dependencies := by
  induction fs generalizing c with
  | nil => rfl
  | cons f fs ih =>
    obtain ⟨⟨hdeps, hsnapshot⟩, hfs⟩ := List.forall_mem_cons.mp hfs
    have hf : apply cx (c.withCache restore dependencies) f =
        (apply cx c f).withCache restore dependencies :=
      congrArg Prod.fst (ignoresCache_run cx hdeps hsnapshot c restore dependencies)
    rw [List.foldl_cons, hf, ih _ hfs, List.foldl_cons]

/-- It makes no difference whether the snapshot is there from the beginning or is taken on the
way. -/
theorem foldl_apply_snapshot {s : Snapshot} (hcx : cx.snapshot = some s) (hc : c.restore = none)
    (dependencies : List Path) :
    FilterPipeline.default.types.foldl (apply cx) (c.withCache (some s) dependencies) =
      FilterPipeline.default.types.foldl (apply cx) c := by
  -- The first three filters leave what a cache keeps as it is, the next two overwrite it.
  let first : List TypeFilter := [stripGenericBase, exceptionConstructor, fieldInit]
  let last : List TypeFilter := [cacheDependencies, recordSnapshot, nativePath]
  have hfirst := @foldl_apply_withCache cx c first (by decide)
  have hself : c.withCache none c.cacheDependencies = c := by
    rw [← hc]
    rfl
  have hnone : (first.foldl (apply cx) c).restore = none := by
    rw [← hself, hfirst]
    rfl
  have hlast (d : ClassDef) (hd : d.restore = none) :
      last.foldl (apply cx) (d.withCache (some s) dependencies) = last.foldl (apply cx) d := by
    refine congrArg (apply cx · nativePath) ?_
    have hd' : (apply cx d cacheDependencies).restore = none := hd
    rw [apply_recordSnapshot, apply_recordSnapshot, hd', hcx]
    rfl
  calc FilterPipeline.default.types.foldl (apply cx) (c.withCache (some s) dependencies)
      = last.foldl (apply cx) (first.foldl (apply cx) (c.withCache (some s) dependencies)) := rfl
    _ = last.foldl (apply cx) ((first.foldl (apply cx) c).withCache (some s) dependencies) := by
        rw [hfirst]
    _ = last.foldl (apply cx) (first.foldl (apply cx) c) := hlast _ hnone
    _ = FilterPipeline.default.types.foldl (apply cx) c := rfl

end TypeFilter

namespace FilterPipeline

theorem fst_runAll_types (cx : FilterContext) (fs : List TypeFilter) (c : ClassDef)
    (stats : FilterStats) :
    (runAll TypeFilter.name (TypeFilter.run cx) fs c stats).1 =
      fs.foldl (TypeFilter.apply cx) c := by
  induction fs generalizing c stats with
  | nil => rfl
  | cons f fs ih =>
    obtain ⟨d, count, hrun, -⟩ := f.run_spec cx c
    rw [runAll, hrun, List.foldl_cons, TypeFilter.apply, hrun]
    exact ih d _

theorem runAll_types_withCache {cx : FilterContext} {s : Snapshot} (hcx : cx.snapshot = some s)
    {c f : ClassDef} (hc : c.restore = none) {before after : FilterStats}
    (h : runAll TypeFilter.name (TypeFilter.run cx) default.types c before = (f, .ok after))
    (dependencies : List Path) :
    ∃ after', runAll TypeFilter.name (TypeFilter.run cx) default.types
      (c.withCache (some s) dependencies) before = (f, .ok after') := by
  obtain ⟨f', after', hrun, -⟩ :=
    runAll_types cx default.types (c.withCache (some s) dependencies) before
  have hf : f = f' := by
    have hf := congrArg Prod.fst h
    have hf' := congrArg Prod.fst hrun
    rw [fst_runAll_types] at hf hf'
    rw [TypeFilter.foldl_apply_snapshot cx c hcx hc] at hf'
    exact hf.symm.trans hf'
  exact ⟨after', hf ▸ hrun⟩

theorem restored_of_run {module : Path} {c f : ClassDef} {stats : FilterStats} (hc : c.Fresh)
    (h : default.run (contextOf module c) c = (f, .ok stats)) :
    f.restored = c.withCache (some c.snapshot) f.cacheDependencies := by
  have hpassed := passed_of_run h
  have hrestore : f.restore = some c.snapshot := by
    rw [hpassed.restore, hc.filtered, hc.restore]
    rfl
  rw [ClassDef.restored, hrestore]
  change f.restoreFrom c.snapshot = _
  rw [hpassed.same c.snapshot, ClassDef.restoreFrom_snapshot hc.filtered hc.excluded, hrestore]

theorem run_withCache {module : Path} {c f : ClassDef} {stats : FilterStats} (hc : c.Fresh)
    (h : default.run (contextOf module c) c = (f, .ok stats)) (dependencies : List Path) :
    ∃ stats', default.run (contextOf module (c.withCache (some c.snapshot) dependencies))
      (c.withCache (some c.snapshot) dependencies) = (f, .ok stats') := by
  obtain ⟨b, hb⟩ := (onBodies_runAll default.bodies []).withBodies c
  have hbodies := (onBodies_runAll default.bodies []).ignoresCache c (some c.snapshot) dependencies
  have hcx : contextOf module c = ⟨module, some c.snapshot⟩ := by
    simp [contextOf, hc.filtered]
  have hcx' : contextOf module (c.withCache (some c.snapshot) dependencies) =
      ⟨module, some c.snapshot⟩ := by
    simp [contextOf, hc.filtered]
    rfl
  simp only [run, hcx, hcx', ClassDef.withCache_filtered, hc.filtered, Bool.false_eq_true,
    if_false] at h ⊢
  rw [hbodies]
  rcases hrun : runAll BodyFilter.name BodyFilter.run default.bodies c [] with ⟨d, e | stats₀⟩
  · simp [hrun] at h
  · rw [hrun] at h hb
    obtain rfl : d = c.withBodies b := hb
    exact runAll_types_withCache (c := { c.withBodies b with filtered := true }) rfl hc.restore h
      dependencies

/-! ## Rounds -/

/-- The class after a number of rounds: each takes it back to its snapshot and flushes it again. -/
def rounds (module : Path) (c : ClassDef) : Nat → Run
  | 0 => default.run (contextOf module c) c
  | n + 1 =>
    let c := (rounds module c n).1.restored
    default.run (contextOf module c) c

theorem rounds_eq {module : Path} {c f : ClassDef} {stats : FilterStats} (hc : c.Fresh)
    (h : default.run (contextOf module c) c = (f, .ok stats)) (n : Nat) :
    ∃ stats', rounds module c n = (f, .ok stats') := by
  induction n with
  | zero => exact ⟨stats, h⟩
  | succ n ih =>
    -- The class that is taken back differs from the fresh one in what a cache keeps, no more.
    obtain ⟨_, hround⟩ := ih
    obtain ⟨stats', hnext⟩ := run_withCache hc h f.cacheDependencies
    rw [← restored_of_run hc h] at hnext
    exact ⟨stats', by rw [rounds, hround]; exact hnext⟩

/-- A flushed class that is taken back is what it was, but that it has its snapshot and the
dependencies that were noted. Flushed again it is the same flushed class, and so it goes on. -/
theorem rounds_stable {module : Path} {c f : ClassDef} {stats : FilterStats} (hc : c.Fresh)
    (h : default.run (contextOf module c) c = (f, .ok stats)) :
    f.restored = c.withCache (some c.snapshot) f.cacheDependencies ∧
    (∃ stats', default.run (contextOf module f.restored) f.restored = (f, .ok stats')) ∧
    ∀ n, (∃ stats', rounds module c n = (f, .ok stats')) ∧
      (rounds module c n).1.restored = f.restored := by
  refine ⟨restored_of_run hc h, ?_, fun n => ?_⟩
  · obtain ⟨stats', hagain⟩ := rounds_eq hc h 1
    rw [rounds, rounds, h] at hagain
    exact ⟨stats', hagain⟩
  · obtain ⟨stats', hround⟩ := rounds_eq hc h n
    exact ⟨⟨stats', hround⟩, by rw [hround]⟩

def counter : ClassDef :=
  { ClassDef.empty ⟨[], "Counter"⟩ ⟨[], "Counter"⟩ with
    fields := [.var "count" .dynamic (some ⟨.int "1" .null, .dynamic⟩)] }

theorem rounds_stable_counter :
    ∃ f stats, default.run (contextOf counter.module counter) counter = (f, .ok stats) ∧
      f.constructor.isSome ∧ f.restored.constructor.isSome = false ∧
      f.restored = counter.withCache (some counter.snapshot) f.cacheDependencies ∧
      (rounds counter.module counter 2).1.restored = f.restored := by
  have hok : (default.run (contextOf counter.module counter) counter).2.toBool = true := by
    decide +kernel
  have hctor : (default.run (contextOf counter.module counter) counter).1.constructor.isSome := by
    decide +kernel
  rcases hrun : default.run (contextOf counter.module counter) counter with ⟨f, e | stats⟩
  · simp [hrun, Except.toBool] at hok
  · rw [hrun] at hctor
    obtain ⟨hrestored, -, hrounds⟩ := rounds_stable ⟨rfl, rfl, rfl⟩ hrun
    refine ⟨f, stats, rfl, hctor, ?_, hrestored, (hrounds 2).2⟩
    rw [hrestored]
    rfl

end FilterPipeline

end HaxeMacro
