import Mathlib.Order.Compare
import HaxeMacro.Program.Path

/-! # The order of paths

Paths are totally ordered, by package and then by name, and only equal paths compare as equal. So
sorting a list in which no path occurs twice gives its one ascending order.
-/

namespace HaxeMacro

open Std

/-! ## Texts -/

theorem compareNat_eq_compare (a b : Nat) : compareNat a b = compare a b := by
  unfold compareNat
  simp only [Nat.blt_eq]
  split
  · rename_i hlt
    exact (Nat.compare_eq_lt.mpr hlt).symm
  · rename_i hlt
    split
    · rename_i hgt
      exact (Nat.compare_eq_gt.mpr hgt).symm
    · rename_i hgt
      exact (Nat.compare_eq_eq.mpr (by omega)).symm

theorem compareLists_eq_compareLex {α : Type} (compare : α → α → Ordering) (as bs : List α) :
    compareLists compare as bs = List.compareLex compare as bs := by
  induction as generalizing bs with
  | nil => cases bs <;> rfl
  | cons a as ih =>
    cases bs with
    | nil => rfl
    | cons b bs =>
      rw [compareLists, List.compareLex]
      cases compare a b <;> simp [ih]

theorem compareText_eq_byKey :
    compareText =
      Ordering.byKey String.toList (List.compareLex (Ordering.byKey Char.toNat compare)) := by
  funext a b
  simp only [compareText, compareLists_eq_compareLex, compareNat_eq_compare]
  rfl

theorem lawfulEqCmp_byKey {α β : Type} {cmp : β → β → Ordering} [LawfulEqCmp cmp] {key : α → β}
    (h : ∀ a b, key a = key b → a = b) : LawfulEqCmp (Ordering.byKey key cmp) where
  compare_self := by
    intro a
    exact (ReflCmp.compare_self : cmp (key a) (key a) = .eq)
  eq_of_compare := by
    intro a b heq
    have hkey : cmp (key a) (key b) = .eq := heq
    exact h a b (LawfulEqCmp.eq_of_compare hkey)

instance : TransCmp compareText := by
  rw [compareText_eq_byKey]
  infer_instance

instance : LawfulEqCmp compareText := by
  rw [compareText_eq_byKey]
  have : LawfulEqCmp (Ordering.byKey Char.toNat compare) :=
    lawfulEqCmp_byKey fun _ _ => Char.toNat_inj.mp
  exact lawfulEqCmp_byKey fun _ _ => String.toList_injective

/-! ## Lists without repetitions -/

theorem nodup_eraseDups {α : Type} [BEq α] [LawfulBEq α] (as : List α) : as.eraseDups.Nodup := by
  match as with
  | [] => exact .nil
  | a :: as =>
    rw [List.eraseDups_cons, List.nodup_cons, List.mem_eraseDups]
    exact ⟨by simp, nodup_eraseDups _⟩
termination_by as.length
decreasing_by exact Nat.lt_succ_of_le (List.length_filter_le _ _)

/-! ## Paths -/

namespace Path

theorem compare_eq_compareLex :
    compare = compareLex (Ordering.byKey pack (List.compareLex compareText))
      (Ordering.byKey name compareText) := by
  funext a b
  rw [compare, compareLists_eq_compareLex]
  unfold compareLex Ordering.byKey
  cases List.compareLex compareText a.pack b.pack <;> rfl

instance : TransCmp compare := by
  rw [compare_eq_compareLex]
  infer_instance

instance : LawfulEqCmp compare where
  compare_self := by simp [compare_eq_compareLex, ReflCmp.compare_self]
  eq_of_compare := by
    intro a b h
    rw [compare_eq_compareLex, compareLex, Ordering.then_eq_eq] at h
    obtain ⟨hpack, hname⟩ := h
    cases a
    cases b
    rw [mk.injEq]
    exact ⟨LawfulEqCmp.eq_of_compare hpack, LawfulEqCmp.eq_of_compare hname⟩

/-- Whether `a` comes before `b`. -/
def Before (a b : Path) : Prop := compare a b = .lt

theorem le_iff_isLE (a b : Path) : le a b = (compare a b).isLE := by
  unfold le
  cases compare a b <;> rfl

theorem before_of_le_of_ne {a b : Path} (h : le a b) (hne : a ≠ b) : Before a b := by
  rw [le_iff_isLE] at h
  unfold Before
  cases horder : compare a b with
  | lt => rfl
  | eq => exact absurd (LawfulEqCmp.eq_of_compare horder) hne
  | gt =>
    rw [horder] at h
    cases h

theorem mem_sort {p : Path} {paths : List Path} : p ∈ sort paths ↔ p ∈ paths :=
  List.mem_mergeSort

theorem nodup_sort {paths : List Path} (h : paths.Nodup) : (sort paths).Nodup :=
  (List.mergeSort_perm paths le).nodup_iff.mpr h

theorem pairwise_le_sort (paths : List Path) : (sort paths).Pairwise (le · ·) := by
  refine List.pairwise_mergeSort (fun a b c => ?_) (fun a b => ?_) paths
  · simp only [le_iff_isLE]
    exact TransCmp.isLE_trans
  · have hswap : compare b a = (compare a b).swap := OrientedCmp.eq_swap
    rw [le_iff_isLE, le_iff_isLE, hswap]
    cases compare a b <;> rfl

/-- Distinct paths are sorted in ascending order. -/
theorem pairwise_before_sort {paths : List Path} (h : paths.Nodup) :
    (sort paths).Pairwise Before :=
  (pairwise_le_sort paths).imp₂ (fun _ _ => before_of_le_of_ne) (nodup_sort h)

@[simp]
theorem mem_sortDistinct {p : Path} {paths : List Path} : p ∈ sortDistinct paths ↔ p ∈ paths := by
  rw [sortDistinct, mem_sort, List.mem_eraseDups]

theorem pairwise_before_sortDistinct (paths : List Path) :
    (sortDistinct paths).Pairwise Before :=
  pairwise_before_sort (nodup_eraseDups paths)

end Path

end HaxeMacro
