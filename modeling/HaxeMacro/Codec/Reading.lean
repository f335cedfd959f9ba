import HaxeMacro.Codec.Mismatch

/-! # Readings

A reader walks over a whole value. It keeps the steps to the place where it stands, and notes every
mismatch under the place where it meets it, so it never stops at the first one.
-/

namespace HaxeMacro

/-! ## Walks -/

/-- Where a reader stands in the whole value, and the mismatches that it has met so far. -/
structure Walk where
  path : List Step
  mismatches : List Mismatch

namespace Walk

def start : Walk := ⟨[], []⟩

def enter (w : Walk) (step : Step) : Walk := { w with path := w.path ++ [step] }

def leave (w : Walk) : Walk := { w with path := w.path.dropLast }

def note (w : Walk) (expected found : String) : Walk :=
  { w with mismatches := w.mismatches ++ [⟨w.path, expected, found⟩] }

@[simp] theorem leave_enter (w : Walk) (step : Step) : (w.enter step).leave = w := by
  simp [enter, leave]

end Walk

/-! ## Readings -/

/-- One stretch of a walk, which may come to a result. -/
def Reading (α : Type) := Walk → Option α × Walk

namespace Reading

variable {α β : Type}

def ok (a : α) : Reading α := fun w => (some a, w)

/-- There is no result, because the value here is not what was expected. -/
def mismatch (expected found : String) : Reading α := fun w => (none, w.note expected found)

def map (f : α → β) (x : Reading α) : Reading β := fun w =>
  let (a, w) := x w
  (a.map f, w)

/-- Both parts are read, whatever the first one gives; there is a result if both have one. -/
def ap (f : Reading (α → β)) (x : Reading α) : Reading β := fun w =>
  let (g, w) := f w
  let (a, w) := x w
  (g.bind fun g => a.map g, w)

instance : Functor Reading where
  map := map

instance : Applicative Reading where
  pure := ok
  seq f x := ap f (x ())

def under (step : Step) (x : Reading α) : Reading α := fun w =>
  let (a, w) := x (w.enter step)
  (a, w.leave)

end Reading

/-! ## Verdicts -/

/-- What is made of a whole value in the end: a result, or at least one mismatch. -/
inductive Decoded (α : Type) where
  | ok (a : α)
  | faulty (first : Mismatch) (others : List Mismatch)

namespace Decoded

variable {α : Type}

def faults : Decoded α → List Mismatch
  | ok _ => []
  | faulty first others => first :: others

def result? : Decoded α → Option α
  | ok a => some a
  | faulty .. => none

theorem faults_eq_nil_iff (x : Decoded α) : x.faults = [] ↔ ∃ a, x = ok a := by
  cases x <;> simp [faults]

end Decoded

/-- The verdict of a reading of the whole value `v`. A reading that gives up without a word is
itself reported as a mismatch. -/
def Reading.verdict {α : Type} (x : Reading α) (expected : String) (v : Value) : Decoded α :=
  match x .start with
  | (some a, ⟨_, []⟩) => .ok a
  | (_, ⟨_, first :: others⟩) => .faulty first others
  | (none, ⟨path, []⟩) => .faulty ⟨path, expected, v.describe⟩ []

end HaxeMacro
