import HaxeMacro.Proofs.Engine.Server
import Mathlib.Order.Nat

/-! # Lives of runtimes

Runtimes are made one after the other, and a runtime that was given up is never used again. The
engine counts what it does.
-/

namespace HaxeMacro

variable {ι R I G : Type}

namespace RuntimeEvent

def used? : RuntimeEvent → Option Nat
  | create generation => some generation
  | reuse handle | run handle _ => some handle.generation
  | poison _ => none

def poisoned? : RuntimeEvent → Option Nat
  | poison generation => some generation
  | _ => none

def handle? : RuntimeEvent → Option RuntimeHandle
  | reuse handle | run handle _ => some handle
  | _ => none

def isCreate : RuntimeEvent → Bool
  | create _ => true
  | _ => false

def isReuse : RuntimeEvent → Bool
  | reuse _ => true
  | _ => false

def isRun : RuntimeEvent → Bool
  | run .. => true
  | _ => false

/-- Runtimes are used in the order in which they were made, and not after they were given up. -/
def Precedes (a b : RuntimeEvent) : Prop :=
  ∀ used ∈ b.used?, (∀ g ∈ a.used?, g ≤ used) ∧ ∀ g ∈ a.poisoned?, g < used

end RuntimeEvent

namespace Engine

/-- What the counts of an engine have to do with each other and with its runtime. -/
structure Consistent (e : Engine R) : Prop where
  generation : e.generation = e.stats.runtimesCreated
  contexts : e.stats.contextsCreated = e.stats.reuses + e.stats.runtimesCreated
  bootstraps : e.stats.bootstraps ≤ e.stats.runtimesCreated
  handle : ∀ live, e.runtime = some live → live.handle.generation = e.generation

/-- The lowest generation of a runtime that can be used from now on. -/
def floor (e : Engine R) : Nat := if e.isLive then e.generation else e.generation + 1

theorem consistent_new : Consistent (new : Engine R) :=
  ⟨rfl, rfl, Nat.le_refl 0, fun _ h => by cases h⟩

theorem generation_le_floor (e : Engine R) : e.generation ≤ e.floor := by
  unfold floor
  split <;> omega

theorem floor_le (e : Engine R) : e.floor ≤ e.generation + 1 := by
  unfold floor
  split <;> omega

theorem floor_of_runtime {e : Engine R} {live : LiveRuntime R} (hlive : e.runtime = some live)
    (hpoisoned : live.handle.poisoned = false) : e.floor = e.generation := by
  simp [floor, isLive, hlive, hpoisoned]

theorem floor_invalidate (e : Engine R) : e.invalidate.floor = e.generation + 1 := by
  rw [floor, isLive_invalidate]
  rfl

end Engine

namespace EngineState

variable {rt : Runtime R I G} {s s' : EngineState R I G} {es : List RuntimeEvent}

theorem Turn.consistent (h : Turn rt s es s') (hs : s.engine.Consistent) :
    s'.engine.Consistent := by
  obtain ⟨hgeneration, hcontexts, hbootstraps, hhandle⟩ := hs
  cases h with
  | quiet h =>
    constructor
    · rw [h.generation, h.stats, hgeneration]
    · rw [h.stats, hcontexts]
    · rw [h.stats]
      exact hbootstraps
    · rw [h.runtime, h.generation]
      exact hhandle
  | create h hready =>
    obtain ⟨hgeneration', booted, invalidations, hbooted, hstats⟩ := h
    simp only [Engine.countContext] at hgeneration' hstats
    constructor
    · rw [hgeneration', hstats, hgeneration]
    · rw [hstats]
      simp only
      omega
    · rw [hstats]
      simp only
      omega
    · -- A runtime that could not be prepared is not kept, so the handle is that of the new one.
      intro live hlive
      obtain ⟨_, state, _, _, hruntime⟩ | ⟨hnone, -⟩ := hready
      · cases hlive.symm.trans hruntime
        rfl
      · cases hlive.symm.trans hnone
  | reuse hlive hpoisoned hruntime hgeneration' hstats =>
    simp only [Engine.countContext] at hstats
    constructor
    · rw [hgeneration', hstats, hgeneration]
    · rw [hstats]
      simp only
      omega
    · rw [hstats]
      exact hbootstraps
    · intro live hlive'
      cases hlive'.symm.trans hruntime
      exact (hhandle _ hlive).trans hgeneration'.symm
  | run hlive hpoisoned hruntime hgeneration' hstats =>
    constructor
    · rw [hgeneration', hstats, hgeneration]
    · rw [hstats, hcontexts]
    · rw [hstats]
      exact hbootstraps
    · intro live hlive'
      cases hlive'.symm.trans hruntime
      exact (hhandle _ hlive).trans hgeneration'.symm
  | invalidate =>
    refine ⟨hgeneration, hcontexts, hbootstraps, fun live hlive => ?_⟩
    obtain ⟨before, hbefore, rfl⟩ := Option.map_eq_some_iff.mp hlive
    exact hhandle before hbefore

/-- What is used lies between the bounds before and after it, and what is poisoned is below the
bound from then on. -/
structure Bounded (es : List RuntimeEvent) (lower upper : Nat) : Prop where
  le : lower ≤ upper
  used : ∀ e ∈ es, ∀ g ∈ e.used?, lower ≤ g ∧ g ≤ upper
  poisoned : ∀ e ∈ es, ∀ g ∈ e.poisoned?, g < upper
  precedes : es.Pairwise RuntimeEvent.Precedes

theorem Bounded.append {es es' : List RuntimeEvent} {lower middle upper : Nat}
    (h : Bounded es lower middle) (h' : Bounded es' middle upper) :
    Bounded (es ++ es') lower upper where
  le := h.le.trans h'.le
  used e he g hg := by
    rcases List.mem_append.mp he with he | he
    · exact ⟨(h.used e he g hg).1, (h.used e he g hg).2.trans h'.le⟩
    · exact ⟨h.le.trans (h'.used e he g hg).1, (h'.used e he g hg).2⟩
  poisoned e he g hg := by
    rcases List.mem_append.mp he with he | he
    · exact (h.poisoned e he g hg).trans_le h'.le
    · exact h'.poisoned e he g hg
  precedes := by
    refine List.pairwise_append.mpr ⟨h.precedes, h'.precedes, fun a ha b hb used hused => ?_⟩
    have hmiddle := (h'.used b hb used hused).1
    exact ⟨fun g hg => (h.used a ha g hg).2.trans hmiddle,
      fun g hg => (h.poisoned a ha g hg).trans_le hmiddle⟩

theorem bounded_of_use {live : LiveRuntime R} {state : R} {e : RuntimeEvent}
    (hs : s.engine.Consistent) (hlive : s.engine.runtime = some live)
    (hpoisoned : live.handle.poisoned = false)
    (hruntime : s'.engine.runtime = some { live with state })
    (hgeneration : s'.engine.generation = s.engine.generation)
    (hused : e.used? = some live.handle.generation) (hnot : e.poisoned? = none) :
    Bounded [e] s.engine.floor s'.engine.floor := by
  have hlower := Engine.floor_of_runtime hlive hpoisoned
  have hupper := Engine.floor_of_runtime hruntime hpoisoned
  have hhandle := hs.handle live hlive
  rw [hlower, hupper, hgeneration]
  refine ⟨le_rfl, ?_, by simp [hnot], List.pairwise_singleton _ _⟩
  simp only [List.mem_singleton, forall_eq, hused, Option.mem_some_iff]
  rintro g rfl
  exact ⟨hhandle.ge, hhandle.le⟩

theorem Turn.bounded (h : Turn rt s es s') (hs : s.engine.Consistent) :
    Bounded es s.engine.floor s'.engine.floor := by
  cases h with
  | quiet h =>
    have hfloor : s'.engine.floor = s.engine.floor := by
      unfold Engine.floor Engine.isLive
      rw [h.runtime, h.generation]
    exact ⟨hfloor.ge, by simp, by simp, .nil⟩
  | create h hready =>
    -- The new generation is above the one before, whether that was given up or not.
    have hlower := s.engine.floor_le
    have hgeneration := h.generation
    have hupper := s'.engine.generation_le_floor
    simp only [Engine.countContext] at hgeneration
    refine ⟨by omega, ?_, by simp [RuntimeEvent.poisoned?], List.pairwise_singleton _ _⟩
    simp only [List.mem_singleton, forall_eq, RuntimeEvent.used?, Option.mem_some_iff]
    rintro g rfl
    omega
  | reuse hlive hpoisoned hruntime hgeneration hstats =>
    exact bounded_of_use hs hlive hpoisoned hruntime hgeneration rfl rfl
  | run hlive hpoisoned hruntime hgeneration hstats =>
    exact bounded_of_use hs hlive hpoisoned hruntime hgeneration rfl rfl
  | invalidate =>
    have hlower := s.engine.floor_le
    have hupper : s.invalidated.engine.floor = s.engine.generation + 1 := s.engine.floor_invalidate
    rw [hupper]
    cases hlive : s.engine.runtime with
    | none => exact ⟨hlower, by simp, by simp, .nil⟩
    | some live =>
      have hgeneration := hs.handle live hlive
      refine ⟨hlower, by simp [RuntimeEvent.used?], ?_, List.pairwise_singleton _ _⟩
      simp only [Option.toList_some, List.map_cons, List.map_nil, List.mem_singleton, forall_eq,
        RuntimeEvent.poisoned?, Option.mem_some_iff]
      rintro g rfl
      omega

structure Counted (es : List RuntimeEvent) (e e' : Engine R) : Prop where
  created : e'.stats.runtimesCreated = e.stats.runtimesCreated + es.countP (·.isCreate)
  reuses : e'.stats.reuses = e.stats.reuses + es.countP (·.isReuse)
  calls : e'.stats.calls = e.stats.calls + es.countP (·.isRun)

theorem Turn.counted (h : Turn rt s es s') : Counted es s.engine s'.engine := by
  cases h with
  | quiet h => exact ⟨by rw [h.stats]; rfl, by rw [h.stats]; rfl, by rw [h.stats]; rfl⟩
  | create h hready =>
    obtain ⟨-, booted, invalidations, -, hstats⟩ := h
    exact ⟨by rw [hstats]; rfl, by rw [hstats]; rfl, by rw [hstats]; rfl⟩
  | reuse hlive hpoisoned hruntime hgeneration hstats =>
    exact ⟨by rw [hstats]; rfl, by rw [hstats]; rfl, by rw [hstats]; rfl⟩
  | run hlive hpoisoned hruntime hgeneration hstats =>
    exact ⟨by rw [hstats]; rfl, by rw [hstats]; rfl, by rw [hstats]; rfl⟩
  | invalidate => cases s.engine.runtime <;> exact ⟨rfl, rfl, rfl⟩

theorem Turn.unpoisoned (h : Turn rt s es s') :
    ∀ e ∈ es, ∀ handle ∈ e.handle?, handle.poisoned = false := by
  cases h with
  | quiet h => simp
  | create h hready => simp [RuntimeEvent.handle?]
  | reuse hlive hpoisoned hruntime hgeneration hstats
  | run hlive hpoisoned hruntime hgeneration hstats =>
    simpa [RuntimeEvent.handle?] using hpoisoned
  | invalidate => cases s.engine.runtime <;> simp [RuntimeEvent.handle?]

end EngineState

namespace Server

open EngineState (Bounded Counted)

variable [DecidableEq ι] {rt : Runtime R I G} {s s' : Server ι R I G} {es : List RuntimeEvent}

theorem History.consistent (h : History rt s es s') (hs : s.engine.Consistent) :
    s'.engine.Consistent := by
  induction h with
  | nil s => exact hs
  | cons hturn _ ih => exact ih (hturn.consistent hs)

theorem History.bounded (h : History rt s es s') (hs : s.engine.Consistent) :
    Bounded es s.engine.floor s'.engine.floor := by
  induction h with
  | nil s => exact ⟨le_rfl, by simp, by simp, .nil⟩
  | cons hturn _ ih =>
    -- The bound after the turn is the bound before the rest.
    exact (hturn.bounded hs).append (ih (hturn.consistent hs))

theorem History.counted (h : History rt s es s') : Counted es s.engine s'.engine := by
  induction h with
  | nil s => exact ⟨rfl, rfl, rfl⟩
  | cons hturn _ ih =>
    have hfirst := hturn.counted
    constructor
    · rw [ih.created, List.countP_append, ← Nat.add_assoc]
      exact congrArg (· + _) hfirst.created
    · rw [ih.reuses, List.countP_append, ← Nat.add_assoc]
      exact congrArg (· + _) hfirst.reuses
    · rw [ih.calls, List.countP_append, ← Nat.add_assoc]
      exact congrArg (· + _) hfirst.calls

theorem History.unpoisoned (h : History rt s es s') :
    ∀ e ∈ es, ∀ handle ∈ e.handle?, handle.poisoned = false := by
  induction h with
  | nil s => simp
  | cons hturn _ ih =>
    intro e he
    rcases List.mem_append.mp he with he | he
    · exact hturn.unpoisoned e he
    · exact ih e he

variable (t : Typer I G) (rt)

/-- Whatever type checkers and runtimes do: the counts of an engine agree with each other and with
what happened, only runtimes that were not given up are used, and no runtime is used after a later
one or after it was given up. -/
theorem runtime_lifecycle (primary : ι → Scope I) (shared : ι → Shared) (world : World G)
    (steps : List (ServerStep ι I G)) :
    ∃ es s, (start primary shared world).run t rt steps = s ∧
      History rt (start primary shared world) es s ∧
      s.engine.Consistent ∧ Counted es .new s.engine ∧
      (∀ e ∈ es, ∀ handle ∈ e.handle?, handle.poisoned = false) ∧
      (∀ before g after, es = before ++ .poison g :: after → g ∉ after.filterMap (·.used?)) ∧
      (es.filterMap (·.used?)).Pairwise (· ≤ ·) := by
  let begun : Server ι R I G := start primary shared world
  obtain ⟨es, h⟩ := begun.history_run t rt steps
  have hs : begun.engine.Consistent := Engine.consistent_new
  have hprecedes := (h.bounded hs).precedes
  refine ⟨es, _, rfl, h, h.consistent hs, h.counted, h.unpoisoned, ?_, ?_⟩
  · rintro before g after rfl hused
    obtain ⟨e, he, hg⟩ := List.mem_filterMap.mp hused
    have hlater := (List.pairwise_append.mp hprecedes).2.1
    exact absurd ((List.rel_of_pairwise_cons hlater he g hg).2 g rfl) (lt_irrefl g)
  · refine List.pairwise_filterMap.mpr (hprecedes.imp fun {a b} hab g hg g' hg' => ?_)
    exact (hab g' hg').1 g hg

end Server

end HaxeMacro
