import HaxeMacro.Codec.Decode

/-! # The depth of parts

A part of a value is nested less deep than the value, and so is the null that stands for a missing
part.
-/

namespace HaxeMacro.Value

theorem one_le_depth (v : Value) : 1 ≤ v.depth := by
  cases v <;> simp [depth]

theorem depth_le_of_mem_items {v : Value} {items : List Value} (h : v ∈ items) :
    v.depth ≤ depthOfItems items := by
  induction items with
  | nil => cases h
  | cons w rest ih =>
    rw [depthOfItems]
    rcases List.mem_cons.mp h with rfl | h
    · exact Nat.le_max_left _ _
    · exact Nat.le_trans (ih h) (Nat.le_max_right _ _)

theorem depth_get_le (fields : Fields) (name : String) :
    (Fields.get fields name).depth ≤ max 1 (depthOfFields fields) := by
  induction fields with
  | nil => exact Nat.le_trans (by simp [Fields.get, Entries.get?, depth]) (Nat.le_max_left _ _)
  | cons p rest ih =>
    obtain ⟨key, v⟩ := p
    rw [depthOfFields]
    by_cases hk : key = name
    · have hget : Fields.get ((key, v) :: rest) name = v := by simp [Fields.get, Entries.get?, hk]
      rw [hget]
      omega
    · have hget : Fields.get ((key, v) :: rest) name = Fields.get rest name := by
        simp [Fields.get, Entries.get?, hk]
      rw [hget]
      omega

theorem depth_field_lt (fields : Fields) (name : String) :
    (Fields.get fields name).depth < (object fields).depth := by
  have h := depth_get_le fields name
  rw [depth]
  omega

theorem depth_arg_lt {type constructor : String} {index : Nat} {args : List Value} {v : Value}
    (h : v ∈ args) : v.depth < (enum type constructor index args).depth := by
  have hv := depth_le_of_mem_items h
  rw [depth]
  omega

theorem depth_null_lt_enum (type constructor : String) (index : Nat) (args : List Value) :
    null.depth < (enum type constructor index args).depth := by
  have h : null.depth = 1 := by rw [depth] <;> simp
  rw [h, depth]
  omega

theorem depth_item_lt {items : List Value} {v : Value} (h : v ∈ items) :
    v.depth < (array items).depth := by
  have hv := depth_le_of_mem_items h
  rw [depth]
  omega

end HaxeMacro.Value
