import HaxeMacro.Codec.Decode

/-! # What a reading notes

A reading may be put anywhere into a walk. Wherever that is, it comes back to the place where it
started, it adds its own mismatches to those of the walk, and it has no result exactly if there is
one to add.
-/

namespace HaxeMacro

variable {α β : Type}

/-- The same mismatch, seen from the value that `path` starts at. -/
def Mismatch.beneath (path : List Step) (m : Mismatch) : Mismatch :=
  { m with path := path ++ m.path }

namespace Mismatch

@[simp] theorem beneath_nil (m : Mismatch) : m.beneath [] = m := by
  simp only [beneath, List.nil_append]

end Mismatch

/-- Wherever the reading starts, it notes the mismatches `ms` and goes back to its start, and it has
a result exactly if there are none. -/
structure Notes (x : Reading α) (ms : List Mismatch) : Prop where
  path : ∀ w, (x w).2.path = w.path
  mismatches : ∀ w, (x w).2.mismatches = w.mismatches ++ ms.map (·.beneath w.path)
  result : ∀ w, (x w).1 = none ↔ ms ≠ []

namespace Notes

open Reading

theorem ok (a : α) : Notes (Reading.ok a) [] where
  path _ := rfl
  mismatches w := by simp [Reading.ok]
  result w := by simp [Reading.ok]

theorem mismatch (expected found : String) :
    Notes (Reading.mismatch expected found : Reading α) [⟨[], expected, found⟩] where
  path _ := rfl
  mismatches w := by simp [Reading.mismatch, Walk.note, Mismatch.beneath]
  result w := by simp [Reading.mismatch]

theorem map {x : Reading α} {ms : List Mismatch} (h : Notes x ms) (f : α → β) :
    Notes (f <$> x) ms where
  path := h.path
  mismatches := h.mismatches
  result w := by
    rw [← h.result w]
    exact Option.map_eq_none_iff

theorem ap {f : Reading (α → β)} {x : Reading α} {ms ns : List Mismatch} (hf : Notes f ms)
    (hx : Notes x ns) : Notes (f <*> x) (ms ++ ns) where
  path w := (hx.path _).trans (hf.path w)
  mismatches w := by
    have h : ((f <*> x) w).2.mismatches = (x (f w).2).2.mismatches := rfl
    rw [h, hx.mismatches, hf.mismatches, hf.path, List.map_append, List.append_assoc]
  result w := by
    have h : ((f <*> x) w).1 = (f w).1.bind fun g => (x (f w).2).1.map g := rfl
    have h1 := hf.result w
    have h2 := hx.result (f w).2
    rw [h]
    cases hfw : (f w).1 with
    | none => simp_all
    | some g => simp_all

theorem under {x : Reading α} {ms : List Mismatch} (h : Notes x ms) (step : Step) :
    Notes (x.under step) (ms.map (·.under step)) where
  path w := by
    have hpath := h.path (w.enter step)
    change (x (w.enter step)).2.path.dropLast = w.path
    rw [hpath]
    exact List.dropLast_concat
  mismatches w := by
    have hms := h.mismatches (w.enter step)
    change (x (w.enter step)).2.mismatches = _
    rw [hms]
    simp [Walk.enter, Mismatch.under, Mismatch.beneath]
  result w := by
    have hresult := h.result (w.enter step)
    change (x (w.enter step)).1 = none ↔ _
    rw [hresult]
    simp

theorem walk_eq {x : Reading α} {ms : List Mismatch} (h : Notes x ms) (w : Walk) :
    (x w).2 = ⟨w.path, w.mismatches ++ ms.map (·.beneath w.path)⟩ := by
  have hpath := h.path w
  have hms := h.mismatches w
  rcases hw : (x w).2 with ⟨path, mismatches⟩
  rw [hw] at hpath hms
  subst hpath hms
  rfl

/-- A verdict is the result or the noted mismatches: no reading gives up without a word. -/
theorem faults_verdict {x : Reading α} {ms : List Mismatch} (h : Notes x ms) (expected : String)
    (v : Value) : (x.verdict expected v).faults = ms := by
  have hwalk : (x .start).2 = ⟨[], ms⟩ := by simpa [Walk.start] using h.walk_eq .start
  have hresult := h.result .start
  unfold verdict
  rcases hx : x .start with ⟨a?, w⟩
  rw [hx] at hwalk hresult
  subst hwalk
  cases a? with
  | some a =>
    have hms : ms = [] := by simpa using hresult
    rw [hms]
    rfl
  | none =>
    cases ms with
    | nil => simp at hresult
    | cons m ms => rfl

end Notes

/-! ## Readers put together from readers of parts -/

namespace Decode

theorem notes_field {fields : Fields} {name : String} {read : Decoder α} {ms : List Mismatch}
    (h : Notes (read (Fields.get fields name)) ms) :
    Notes (field fields name read) (ms.map (·.under (.field name))) :=
  h.under _

theorem notes_arg_of_some {c : String} {args : List Value} {i : Nat} {read : Decoder α} {v : Value}
    {ms : List Mismatch} (hv : args[i]? = some v) (h : Notes (read v) ms) :
    Notes (arg c args i read) (ms.map (·.under (.arg c i))) := by
  rw [arg, hv]
  exact h.under _

theorem notes_arg_of_none {c : String} {args : List Value} {i : Nat} {read : Decoder α}
    (hv : args[i]? = none) :
    Notes (arg c args i read) [⟨[.arg c i], "a value", "nothing"⟩] := by
  rw [arg, hv]
  exact (Notes.mismatch "a value" "nothing").under _

theorem notes_lastArg {c : String} {args : List Value} {i : Nat} {read : Decoder α}
    {ms : List Mismatch} (h : Notes (read (args[i]?.getD .null)) ms) :
    Notes (lastArg c args i read) (ms.map (·.under (.arg c i))) :=
  h.under _

end Decode

end HaxeMacro
