import HaxeMacro.Entries
import HaxeMacro.Program.Path

/-! # Neighbours of modules

A set of modules for every module that has one. No module has two sets, and no set holds a module
twice.
-/

namespace HaxeMacro

@[ext]
structure Adjacency where
  sets : Entries Path (List Path)
  nodup_keys : (Entries.keys sets).Nodup
  nodup_sets : ∀ p ∈ sets, p.2.Nodup

namespace Adjacency

def empty : Adjacency := ⟨[], List.nodup_nil, by simp⟩

variable (a : Adjacency)

/-- The neighbours of a module; one without a set has none. -/
def of (module : Path) : List Path := (Entries.get? a.sets module).getD []

theorem nodup_of (module : Path) : (a.of module).Nodup := by
  unfold of
  cases h : Entries.get? a.sets module with
  | none => exact List.nodup_nil
  | some set => exact a.nodup_sets _ (Entries.mem_of_get? h)

theorem nodup_insert {set : List Path} (h : set.Nodup) (p : Path) : (set.insert p).Nodup := by
  by_cases hp : p ∈ set
  · rwa [List.insert_of_mem hp]
  · rw [List.insert_of_not_mem hp]
    exact List.nodup_cons.mpr ⟨hp, h⟩

theorem mem_of {module p : Path} : p ∈ a.of module ↔ ∃ set, (module, set) ∈ a.sets ∧ p ∈ set := by
  simp only [← Entries.get?_eq_some_iff a.nodup_keys]
  unfold of
  cases Entries.get? a.sets module <;> simp

def members : List Path := a.sets.flatMap (·.2)

theorem mem_members_of_mem {module p : Path} (h : p ∈ a.of module) : p ∈ a.members := by
  obtain ⟨set, hset, hp⟩ := a.mem_of.mp h
  exact List.mem_flatMap.mpr ⟨(module, set), hset, hp⟩

/-! ## Changes -/

/-- Makes `p` a neighbour of `module`. -/
def link (module p : Path) : Adjacency where
  sets := Entries.set a.sets module ((a.of module).insert p)
  nodup_keys := Entries.nodup_keys_set a.nodup_keys module _
  nodup_sets := by
    intro e he
    rcases Entries.mem_set he with rfl | he
    · exact nodup_insert (a.nodup_of module) p
    · exact a.nodup_sets e he

/-- Takes `p` from the neighbours of `module`, whose set stays, if only as an empty one. -/
def unlink (module p : Path) : Adjacency where
  sets := a.sets.map fun e => if e.1 = module then (e.1, e.2.filter (· ≠ p)) else e
  nodup_keys := by
    have hkeys : (fun e : Path × List Path =>
        (if e.1 = module then (e.1, e.2.filter (· ≠ p)) else e).1) = (·.1) := by
      funext e
      split <;> rfl
    have h := a.nodup_keys
    rwa [Entries.keys, ← hkeys, ← Function.comp_def, ← List.map_map] at h
  nodup_sets := by
    intro e he
    obtain ⟨q, hq, rfl⟩ := List.mem_map.mp he
    have hset := a.nodup_sets q hq
    split
    · exact hset.sublist List.filter_sublist
    · exact hset

/-- Takes `p` from the neighbours of each of the modules. -/
def unlinkAll (modules : List Path) (p : Path) : Adjacency :=
  modules.foldl (fun a module => a.unlink module p) a

/-- Removes a module with its set. -/
def drop (module : Path) : Adjacency where
  sets := Entries.erase a.sets module
  nodup_keys := Entries.nodup_keys_erase a.nodup_keys module
  nodup_sets := fun e he => a.nodup_sets e (List.mem_filter.mp he).1

variable {a}

theorem of_empty (module : Path) : empty.of module = [] := rfl

theorem mem_of_link {module p m q : Path} :
    q ∈ (a.link module p).of m ↔ q ∈ a.of m ∨ m = module ∧ q = p := by
  unfold of link
  rw [Entries.get?_set]
  by_cases hm : module = m
  · rw [if_pos hm, Option.getD_some, List.mem_insert_iff]
    simp [of, hm, or_comm]
  · simp [hm, Ne.symm hm]

theorem of_unlink (module p m : Path) :
    (a.unlink module p).of m = if m = module then (a.of m).filter (· ≠ p) else a.of m := by
  unfold of unlink
  have h : ∀ sets : Entries Path (List Path),
      Entries.get? (sets.map fun e => if e.1 = module then (e.1, e.2.filter (· ≠ p)) else e) m =
        (Entries.get? sets m).map fun set => if m = module then set.filter (· ≠ p) else set := by
    intro sets
    induction sets with
    | nil => rfl
    | cons e rest ih =>
      by_cases he : e.1 = module <;> by_cases hm : e.1 = m <;>
        simp_all [Entries.get?]
  simp only [h]
  cases Entries.get? a.sets m <;> simp

theorem of_unlinkAll (modules : List Path) (p m : Path) :
    (a.unlinkAll modules p).of m = if m ∈ modules then (a.of m).filter (· ≠ p) else a.of m := by
  induction modules generalizing a with
  | nil => rfl
  | cons module modules ih =>
    rw [unlinkAll, List.foldl_cons, ← unlinkAll, ih, of_unlink]
    by_cases hm : m = module <;> by_cases hms : m ∈ modules <;> simp [hm, hms, List.filter_filter]

theorem mem_of_unlinkAll {modules : List Path} {p m q : Path} :
    q ∈ (a.unlinkAll modules p).of m ↔ q ∈ a.of m ∧ ¬(m ∈ modules ∧ q = p) := by
  rw [of_unlinkAll]
  by_cases hm : m ∈ modules <;> simp [hm]

theorem mem_of_drop {module m q : Path} :
    q ∈ (a.drop module).of m ↔ m ≠ module ∧ q ∈ a.of m := by
  unfold of drop
  rw [Entries.get?_erase]
  by_cases hm : module = m
  · simp [hm]
  · simp [hm, Ne.symm hm]

end Adjacency

end HaxeMacro
