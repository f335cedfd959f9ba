import HaxeMacro.Proofs.Filter.Batch
import HaxeMacro.Proofs.Filter.Rounds
import Mathlib.Logic.Relation

/-! # Snapshots over the life of a class

A flush takes a snapshot of every class that is not filtered yet, but a class that carries a
snapshot already keeps that one. So a class has the snapshot of its first flush for good, and is
taken back to it whatever the type checker has made of the class since.
-/

namespace HaxeMacro

open FilterPipeline (contextOf)

namespace ClassDef

/-- If the class carries a snapshot, it has not changed since. -/
def Current (c : ClassDef) : Prop := ∀ s ∈ c.restore, s = c.snapshot

theorem getD_restore_eq_snapshot_iff {c : ClassDef} :
    c.restore.getD c.snapshot = c.snapshot ↔ c.Current := by
  cases hc : c.restore <;> simp [Current, hc]

@[simp]
theorem snapshot_restoreFrom (c : ClassDef) (s : Snapshot) : (c.restoreFrom s).snapshot = s := rfl

@[simp]
theorem snapshot_withCache (c : ClassDef) (restore : Option Snapshot) (dependencies : List Path) :
    (c.withCache restore dependencies).snapshot = c.snapshot := rfl

/-- A snapshot does not say whether a class was excluded. -/
theorem withCache_restoreFrom_eq_iff {c : ClassDef} (hfiltered : c.filtered = false)
    (s : Snapshot) (restore : Option Snapshot) (dependencies : List Path) :
    (c.restoreFrom s).withCache restore dependencies = c.withCache restore dependencies ↔
      c.excluded = false ∧ s = c.snapshot := by
  constructor
  · -- A class that is taken back is never excluded, and holds what the snapshot holds.
    intro h
    have hexcluded := congrArg ClassDef.excluded h
    have hsnapshot := congrArg ClassDef.snapshot h
    rw [snapshot_withCache, snapshot_withCache, snapshot_restoreFrom] at hsnapshot
    exact ⟨hexcluded.symm, hsnapshot⟩
  · rintro ⟨hexcluded, rfl⟩
    rw [restoreFrom_snapshot hfiltered hexcluded]

theorem Passed.restore_eq {c d : ClassDef} (h : c.Passed d) (hfiltered : c.filtered = false) :
    d.restore = some (c.restore.getD c.snapshot) := by
  rw [h.restore, if_neg (by simp [hfiltered])]

theorem Passed.restore_eq_snapshot_iff {c d : ClassDef} (h : c.Passed d)
    (hfiltered : c.filtered = false) : d.restore = some c.snapshot ↔ c.Current := by
  rw [h.restore_eq hfiltered, Option.some_inj, getD_restore_eq_snapshot_iff]

theorem Passed.restored_eq_iff {c d : ClassDef} (h : c.Passed d) (hfiltered : c.filtered = false) :
    d.restored = c.withCache d.restore d.cacheDependencies ↔ c.excluded = false ∧ c.Current := by
  have hrestored : d.restored = (c.restoreFrom (c.restore.getD c.snapshot)).withCache
      d.restore d.cacheDependencies := by
    rw [← h.same, restored, h.restore_eq hfiltered]
  rw [hrestored, withCache_restoreFrom_eq_iff hfiltered, getD_restore_eq_snapshot_iff]

/-! ## The life of a class -/

/-- What can happen to a class: it is flushed, with or without success, it is taken back, or the
type checker changes it, everything but its snapshot. -/
inductive Turn (module : Path) (c : ClassDef) : ClassDef → Prop
  | flushed : Turn module c (FilterPipeline.default.run (contextOf module c) c).1
  | takenBack : Turn module c c.restored
  | retyped {d : ClassDef} (h : d.restore = c.restore) : Turn module c d

theorem restore_of_failed {module : Path} {c d : ClassDef} {e : FilterError}
    (h : FilterPipeline.default.run (contextOf module c) c = (d, .error e)) :
    d.restore = c.restore := by
  cases hfiltered : c.filtered with
  | true =>
    obtain ⟨_, _, hrun⟩ := FilterPipeline.run_of_filtered module hfiltered
    cases h.symm.trans hrun
  | false =>
    rw [FilterPipeline.run, hfiltered] at h
    rcases hbodies : FilterPipeline.runAll BodyFilter.name BodyFilter.run
        FilterPipeline.default.bodies c [] with ⟨c', e' | stats⟩
    · rw [hbodies] at h
      cases h
      obtain ⟨b, hb⟩ :=
        (FilterPipeline.onBodies_runAll FilterPipeline.default.bodies []).withBodies c
      rw [hbodies] at hb
      obtain rfl : d = c.withBodies b := hb
      rfl
    · obtain ⟨_, _, htypes, -⟩ := FilterPipeline.runAll_types (contextOf module c)
        FilterPipeline.default.types { c' with filtered := true } stats
      simp [hbodies, htypes] at h

theorem Turn.restore_eq {module : Path} {c d : ClassDef} (h : Turn module c d) {s : Snapshot}
    (hs : c.restore = some s) : d.restore = some s := by
  cases h with
  | flushed =>
    rcases hrun : FilterPipeline.default.run (contextOf module c) c with ⟨d, e | stats⟩
    · rw [restore_of_failed hrun, hs]
    · rw [(FilterPipeline.passed_of_run hrun).restore, hs, Option.getD_some, ite_self]
  | takenBack =>
    rw [restored, hs]
    exact hs
  | retyped h => rw [h, hs]

/-- Nothing that happens to a class replaces the snapshot that it carries. -/
theorem restore_of_turns {module : Path} {c d : ClassDef}
    (h : Relation.ReflTransGen (Turn module) c d) {s : Snapshot} (hs : c.restore = some s) :
    d.restore = some s := by
  induction h with
  | refl => exact hs
  | tail _ hturn ih => exact hturn.restore_eq ih

end ClassDef

/-! ## Flushes -/

namespace ModuleDef

theorem types_restored_getElem? (m : ModuleDef) {i : Nat} {c : ClassDef}
    (h : m.types[i]? = some (.classType c)) :
    m.restored.types[i]? = some (.classType c.restored) := by
  rw [restored, List.getElem?_map, h]
  rfl

end ModuleDef

namespace FilterPipeline

open ClassDef

/-- A class that is flushed has the snapshot with which it came, if it came with one. It is the
state of the class at the start of the flush, and taking the module back leads there, as long as the
class had not changed since the snapshot was taken and was not excluded. Nothing that happens to the
class later replaces the snapshot. -/
theorem oldest_snapshot_stays {G : Type} {ids : List ModuleId} {w w' : World G}
    (hrun : default.runOnModules ids w = (w', .ok ())) {id : ModuleId} (hid : id ∈ ids)
    {m : ModuleDef} (hm : w.module? id = some m) :
    ∃ m', w'.module? id = some m' ∧
      ∀ (i : Nat) (c : ClassDef), m.types[i]? = some (.classType c) → c.filtered = false →
        ∃ d, m'.types[i]? = some (.classType d) ∧
          m'.restored.types[i]? = some (.classType d.restored) ∧
          d.restore = some (c.restore.getD c.snapshot) ∧
          (d.restore = some c.snapshot ↔ c.Current) ∧
          (d.restored = c.withCache d.restore d.cacheDependencies ↔
            c.excluded = false ∧ c.Current) ∧
          ∀ e, Relation.ReflTransGen (Turn m.path) d e → e.restore = d.restore := by
  obtain ⟨_, _, -, hfailed⟩ | ⟨_, hpassed, -, hok⟩ := runOnModules_cases ids w
  · cases hrun.symm.trans hfailed
  cases hrun.symm.trans hok
  obtain ⟨m', hm', hmm'⟩ := hpassed.batch id hid m hm
  refine ⟨m', hm', fun i c hc hfiltered => ?_⟩
  obtain ⟨t, ht, hct⟩ := getElem?_of_forall₂ hmm'.types hc
  cases hct with
  | @classType _ d hcd =>
    have hrestore := hcd.restore_eq hfiltered
    refine ⟨d, ht, m'.types_restored_getElem? ht, hrestore, hcd.restore_eq_snapshot_iff hfiltered,
      hcd.restored_eq_iff hfiltered, fun e hturns => ?_⟩
    rw [restore_of_turns hturns hrestore, hrestore]
  | other h => cases h

theorem oldest_snapshot_stays_counter :
    ∃ (w' : World Unit) (m' : ModuleDef) (d : ClassDef),
      default.runOnModules [0] ⟨[⟨counter.module, [.classType counter]⟩], ()⟩ = (w', .ok ()) ∧
      w'.module? 0 = some m' ∧ m'.types[0]? = some (.classType d) ∧
      m'.restored.types[0]? = some (.classType d.restored) ∧
      d.restored = counter.withCache (some counter.snapshot) d.cacheDependencies := by
  obtain ⟨_, _, -, hfailed⟩ | ⟨w', -, -, hrun⟩ := runOnModules_cases [0]
    (⟨[⟨counter.module, [.classType counter]⟩], ()⟩ : World Unit)
  · have hok : (default.runOnModules [0]
        (⟨[⟨counter.module, [.classType counter]⟩], ()⟩ : World Unit)).2.toBool = true := by
      decide +kernel
    simp [hfailed, Except.toBool] at hok
  · obtain ⟨m', hm', hclasses⟩ := oldest_snapshot_stays hrun List.mem_cons_self rfl
    -- The counter comes without a snapshot, so it is current.
    obtain ⟨d, hd, hrestored, hrestore, -, hreturns, -⟩ := hclasses 0 counter rfl rfl
    refine ⟨w', m', d, hrun, hm', hd, hrestored, ?_⟩
    rw [hreturns.mpr ⟨rfl, by simp [Current, counter, empty]⟩, hrestore]
    rfl

/-! ### What is lost -/

theorem exists_passed {module : Path} {c : ClassDef}
    (h : (default.run (contextOf module c) c).2.toBool = true) :
    ∃ d stats, default.run (contextOf module c) c = (d, .ok stats) ∧ c.Passed d := by
  obtain ⟨d, e, hfailed⟩ | hpassed := run_cases module c
  · simp [hfailed, Except.toBool] at h
  · exact hpassed

def cachedCounter : ClassDef :=
  (default.run (contextOf counter.module counter) counter).1.restored

def extendedCounter : ClassDef :=
  { cachedCounter with fields := cachedCounter.fields ++ [.var "step" .dynamic none] }

def excludedCounter : ClassDef := { counter with excluded := true }

theorem exists_cachedCounter_eq :
    ∃ dependencies, cachedCounter = counter.withCache (some counter.snapshot) dependencies := by
  obtain ⟨d, _, hrun, -⟩ := exists_passed
    (show (default.run (contextOf counter.module counter) counter).2.toBool = true by
      decide +kernel)
  refine ⟨d.cacheDependencies, ?_⟩
  rw [cachedCounter, hrun]
  exact restored_of_run ⟨rfl, rfl, rfl⟩ hrun

/-- A variable that was added after the first flush is gone once the class is flushed and taken back
again. A class that was excluded is not excluded any more. -/
theorem counter_changes_are_lost :
    (extendedCounter.filtered = false ∧
      extendedCounter.fields.map (·.name) = ["count", "step"] ∧
      ∃ d stats,
        default.run (contextOf extendedCounter.module extendedCounter) extendedCounter =
          (d, .ok stats) ∧
        d.restore ≠ some extendedCounter.snapshot ∧
        d.restored.fields.map (·.name) = ["count"]) ∧
    excludedCounter.filtered = false ∧ excludedCounter.excluded = true ∧
      ∃ d stats,
        default.run (contextOf excludedCounter.module excludedCounter) excludedCounter =
          (d, .ok stats) ∧
        d.restored.excluded = false := by
  constructor
  · obtain ⟨dependencies, hcached⟩ := exists_cachedCounter_eq
    have hrestore : extendedCounter.restore = some counter.snapshot := by
      rw [extendedCounter, hcached]
      rfl
    have hfiltered : extendedCounter.filtered = false := by
      rw [extendedCounter, hcached]
      rfl
    have hfields : extendedCounter.fields.map (·.name) = ["count", "step"] := by
      rw [extendedCounter, hcached]
      rfl
    obtain ⟨d, stats, hrun, hpassed⟩ := exists_passed (show (default.run
      (contextOf extendedCounter.module extendedCounter) extendedCounter).2.toBool = true by
        decide +kernel)
    have hd : d.restore = some counter.snapshot := by
      rw [hpassed.restore_eq hfiltered, hrestore, Option.getD_some]
    refine ⟨hfiltered, hfields, d, stats, hrun, fun hcurrent => ?_, ?_⟩
    · have hsame : counter.fields = extendedCounter.fields :=
        congrArg Snapshot.fields (Option.some_inj.mp (hd.symm.trans hcurrent))
      rw [← hsame] at hfields
      simp [counter] at hfields
    · rw [restored, hd]
      rfl
  · obtain ⟨d, stats, hrun, hpassed⟩ := exists_passed (show (default.run
      (contextOf excludedCounter.module excludedCounter) excludedCounter).2.toBool = true by
        decide +kernel)
    refine ⟨rfl, rfl, d, stats, hrun, ?_⟩
    rw [restored, hpassed.restore_eq rfl]
    rfl

end FilterPipeline

end HaxeMacro
