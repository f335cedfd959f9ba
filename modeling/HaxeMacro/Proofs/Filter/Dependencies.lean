import HaxeMacro.Filter.Shape
import HaxeMacro.Proofs.Dependency.PathOrder
import HaxeMacro.Proofs.Fragment.Visits

/-! # Noted dependencies

What is noted of a class are the paths that its types mention, in order. A type mentions its own
path and what its parts mention, however deep they are; an open type variable mentions nothing.
-/

namespace HaxeMacro

namespace Ty

def parts : Ty → List Ty
  | .mono _ | .dynamic => []
  | .inst _ args | .enum _ args | .abstract _ args | .synonym _ args => args
  | .func params ret => params.map (·.type) ++ [ret]
  | .anon fields => fields.map (·.2)

/-- The path stands somewhere in the type. -/
inductive Mentions (p : Path) : Ty → Prop
  | path {t : Ty} (h : t.path? = some p) : Mentions p t
  | part {t u : Ty} (hu : u ∈ t.parts) (h : Mentions p u) : Mentions p t

theorem not_mentions_mono (p : Path) (id : UInt32) : ¬ Mentions p (.mono id) := by
  rintro (h | ⟨hu, -⟩)
  · cases h
  · cases hu

/-! ## Collected paths -/

theorem pathsOfTypes_eq_flatMap (ts : List Ty) : pathsOfTypes ts = ts.flatMap paths :=
  eq_flatMap_of_cons rfl (fun _ _ => rfl) ts

theorem pathsOfParams_eq_flatMap (ps : List TyParam) :
    pathsOfParams ps = (ps.map (·.type)).flatMap paths := by
  rw [List.flatMap_map]
  refine eq_flatMap_of_cons rfl ?_ ps
  rintro ⟨name, optional, t⟩ ps
  rfl

theorem pathsOfFields_eq_flatMap (fields : List (String × Ty)) :
    pathsOfFields fields = (fields.map (·.2)).flatMap paths := by
  rw [List.flatMap_map]
  exact eq_flatMap_of_cons rfl (fun _ _ => rfl) fields

theorem paths_eq (t : Ty) : t.paths = t.path?.toList ++ t.parts.flatMap paths := by
  cases t with
  | mono | dynamic => rfl
  | inst path args | enum path args | abstract path args | synonym path args =>
    rw [paths, pathsOfTypes_eq_flatMap]
    rfl
  | func params ret =>
    rw [paths, pathsOfParams_eq_flatMap, parts, List.flatMap_append, List.flatMap_singleton]
    rfl
  | anon fields =>
    rw [paths, pathsOfFields_eq_flatMap]
    rfl

theorem sizeOf_lt_of_mem_parts {t u : Ty} (h : u ∈ t.parts) : sizeOf u < sizeOf t := by
  cases t with
  | mono | dynamic => cases h
  | inst path args | enum path args | abstract path args | synonym path args =>
    have hlt := List.sizeOf_lt_of_mem (show u ∈ args from h)
    simp only [inst.sizeOf_spec, enum.sizeOf_spec, abstract.sizeOf_spec, synonym.sizeOf_spec]
    omega
  | func params ret =>
    rw [func.sizeOf_spec]
    rcases List.mem_append.mp h with h | h
    · obtain ⟨⟨name, optional, t⟩, hp, rfl⟩ := List.mem_map.mp h
      have hlt := List.sizeOf_lt_of_mem hp
      rw [TyParam.mk.sizeOf_spec] at hlt
      dsimp only
      omega
    · rw [List.mem_singleton.mp h]
      omega
  | anon fields =>
    obtain ⟨⟨name, t⟩, hfield, rfl⟩ := List.mem_map.mp h
    have hlt := List.sizeOf_lt_of_mem hfield
    rw [Prod.mk.sizeOf_spec] at hlt
    rw [anon.sizeOf_spec]
    dsimp only
    omega

theorem induction_parts {motive : Ty → Prop} (h : ∀ t, (∀ u ∈ t.parts, motive u) → motive t)
    (t : Ty) : motive t :=
  h t fun u _ => induction_parts h u
termination_by sizeOf t
decreasing_by exact sizeOf_lt_of_mem_parts (by assumption)

theorem mem_paths_iff {p : Path} {t : Ty} : p ∈ t.paths ↔ t.Mentions p := by
  constructor
  · intro hp
    induction t using induction_parts with
    | h t ih =>
      rw [paths_eq, List.mem_append, Option.mem_toList] at hp
      obtain hpath | hpart := hp
      · exact .path hpath
      · obtain ⟨u, hu, hp⟩ := List.mem_flatMap.mp hpart
        exact .part hu (ih u hu hp)
  · intro hp
    induction hp with
    | path h =>
      rw [paths_eq, List.mem_append, Option.mem_toList]
      exact .inl h
    | part hu _ ih =>
      rw [paths_eq]
      exact List.mem_append_right _ (List.mem_flatMap.mpr ⟨_, hu, ih⟩)

end Ty

/-- The path is that of the base class, or a type of the class mentions it. -/
inductive ClassDef.Mentions (c : ClassDef) (p : Path) : Prop
  | base {args : List Ty} (h : c.super = some (p, args))
  | baseArg {base : Path} {args : List Ty} {t : Ty} (h : c.super = some (base, args))
    (ht : t ∈ args) (hp : t.Mentions p)
  | field {m : Member} (hm : m ∈ c.fields) (hp : m.type.Mentions p)
  | static {m : Member} (hm : m ∈ c.statics) (hp : m.type.Mentions p)
  | constructor {m : Member} (hm : c.constructor = some m) (hp : m.type.Mentions p)

namespace Filter

theorem mem_namedPaths_iff {c : ClassDef} {p : Path} : p ∈ namedPaths c ↔ c.Mentions p := by
  have hmember {m : Member} (hm : m ∈ c.members) (hp : m.type.Mentions p) :
      p ∈ c.members.flatMap (·.type.paths) :=
    List.mem_flatMap.mpr ⟨m, hm, Ty.mem_paths_iff.mpr hp⟩
  rw [namedPaths, List.mem_append]
  constructor
  · rintro (hbase | hmember)
    · split at hbase
      · cases hbase
      · rename_i base args hsuper
        obtain rfl | harg := List.mem_cons.mp hbase
        · exact .base hsuper
        · obtain ⟨t, ht, hp⟩ := List.mem_flatMap.mp harg
          exact .baseArg hsuper ht (Ty.mem_paths_iff.mp hp)
    · obtain ⟨m, hm, hp⟩ := List.mem_flatMap.mp hmember
      rw [Ty.mem_paths_iff] at hp
      rw [ClassDef.members, List.mem_append, List.mem_append, Option.mem_toList] at hm
      obtain (hm | hm) | hm := hm
      · exact .field hm hp
      · exact .static hm hp
      · exact .constructor hm hp
  · intro h
    cases h with
    | base hsuper =>
      rw [hsuper]
      exact .inl (.head _)
    | baseArg hsuper ht hp =>
      rw [hsuper]
      exact .inl (.tail _ (List.mem_flatMap.mpr ⟨_, ht, Ty.mem_paths_iff.mpr hp⟩))
    | field hm hp => exact .inr (hmember (by simp [ClassDef.members, hm]) hp)
    | static hm hp => exact .inr (hmember (by simp [ClassDef.members, hm]) hp)
    | constructor hm hp => exact .inr (hmember (by simp [ClassDef.members, hm]) hp)

/-- The dependencies that are noted are in order, without repetitions, and exactly the paths that
the class mentions besides its own. Open type variables stand for none of them, and nothing else of
the class changes, so that they stay open. -/
theorem cacheDependencies_exact (c : ClassDef) :
    ∃ dependencies count,
      cacheDependencies c = ({ c with cacheDependencies := dependencies }, .ok count) ∧
      dependencies.Pairwise Path.Before ∧
      (∀ p, p ∈ dependencies ↔ p ≠ c.path ∧ c.Mentions p) ∧
      ∀ p id, ¬ (Ty.mono id).Mentions p := by
  refine ⟨_, _, rfl, Path.pairwise_before_sortDistinct _, fun p => ?_, Ty.not_mentions_mono⟩
  rw [Path.mem_sortDistinct, List.mem_filter, mem_namedPaths_iff, bne_iff_ne, and_comm]

end Filter

end HaxeMacro
