/-! # Source positions

A position is a span of byte offsets in one file. The null position belongs to fragments that were
made without a source.
-/

namespace HaxeMacro

/-- A span of byte offsets in the file `file`. -/
structure Position where
  file : UInt32
  min : UInt32
  max : UInt32
  deriving DecidableEq, Repr, Inhabited

namespace Position

def noFile : UInt32 := 4294967295

/-- The position of fragments without a source. -/
def null : Position := ⟨noFile, 0, 0⟩

/-- Only the file decides: the offsets of a null position are arbitrary. -/
def isNull (p : Position) : Bool := p.file == noFile

def least (a b : UInt32) : UInt32 := if a ≤ b then a else b

def most (a b : UInt32) : UInt32 := if a ≤ b then b else a

/-- The least span that covers both, in the file of the first; a null position adds nothing. -/
def union (a b : Position) : Position :=
  if a.isNull then b
  else if b.isNull then a
  else ⟨a.file, least a.min b.min, most a.max b.max⟩

def limit : Nat := 4294967295

/-- An offset as a position holds it: those beyond the limit are cut to it. -/
def clamp (n : Nat) : UInt32 := UInt32.ofNat (Nat.min n limit)

theorem union_of_isNull_left {a b : Position} (h : a.isNull = true) : a.union b = b := by
  simp [union, h]

theorem union_of_isNull_right {a b : Position} (ha : a.isNull = false) (hb : b.isNull = true) :
    a.union b = a := by
  simp [union, ha, hb]

theorem union_of_not_isNull {a b : Position} (ha : a.isNull = false) (hb : b.isNull = false) :
    a.union b = ⟨a.file, least a.min b.min, most a.max b.max⟩ := by
  simp [union, ha, hb]

theorem toNat_least (a b : UInt32) : (least a b).toNat = Min.min a.toNat b.toNat := by
  unfold least
  split <;> rename_i h <;> rw [UInt32.le_iff_toNat_le] at h <;> omega

theorem toNat_most (a b : UInt32) : (most a b).toNat = Max.max a.toNat b.toNat := by
  unfold most
  split <;> rename_i h <;> rw [UInt32.le_iff_toNat_le] at h <;> omega

theorem toNat_clamp (n : Nat) : (clamp n).toNat = Nat.min n limit := by
  have h := Nat.min_le_right n limit
  exact UInt32.toNat_ofNat_of_lt' (Nat.lt_of_le_of_lt h (by decide))

end Position

end HaxeMacro
