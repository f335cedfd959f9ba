import HaxeMacro.Proofs.Codec.Diagnosis

/-! # Where faults stand

A reader comes from the whole value to its parts, from there to their parts, and so on. Every fault
stands at a place that the reader visits, and reports what stands there.
-/

namespace HaxeMacro

/-! ## Parts in a value -/

/-- A part stands in its value, or it is one that reads as null while it is missing. -/
def Part.StandsIn (p : Part) (v : Value) : Prop :=
  v.step? p.step = p.value ∨
    v.step? p.step = none ∧ p.value = some .null ∧ p.kind.acceptsNull = true

theorem Slot.standsIn {t c : String} {index : Nat} {args : List Value} {i : Nat}
    {slots : List Slot} {p : Part} (hp : p ∈ Slot.parts c args i slots) :
    p.StandsIn (.enum t c index args) := by
  induction slots generalizing i with
  | nil => cases hp
  | cons slot slots ih =>
    rcases List.mem_cons.mp hp with rfl | hp
    · have hstep : (Value.enum t c index args).step? (.arg c i) = args[i]? := if_pos rfl
      rw [Part.StandsIn, hstep]
      cases hn : slot.isNeeded with
      | true => exact Or.inl rfl
      | false =>
        cases hi : args[i]? with
        | some v => exact Or.inl rfl
        | none => exact Or.inr ⟨rfl, rfl, slot.reads_missing hn⟩
    · exact ih hp

theorem standsIn_of_mem_itemParts {item : Kind} {i : Nat} {items all : List Value} {p : Part}
    (hdrop : all.drop i = items) (hp : p ∈ itemParts item i items) : p.StandsIn (.array all) := by
  induction items generalizing i with
  | nil => cases hp
  | cons v vs ih =>
    rcases List.mem_cons.mp hp with rfl | hp
    · left
      have hget : all[i]? = some v := by
        rw [← List.head?_drop, hdrop]
        rfl
      exact hget
    · refine ih ?_ hp
      rw [← List.tail_drop, hdrop]
      rfl

theorem Kind.standsIn {k : Kind} {v : Value} {parts : List Part} {p : Part}
    (h : k.inspect v = .ok parts) (hp : p ∈ parts) : p.StandsIn v := by
  cases inspected h with
  | null | leaf => cases hp
  | object =>
    obtain ⟨field, -, rfl⟩ := List.mem_map.mp hp
    exact Or.inl rfl
  | enum => exact Slot.standsIn hp
  | array => exact standsIn_of_mem_itemParts rfl hp

/-! ## Visits -/

/-- Reading `v` as a `k`, the reader comes by `path` to the value `w`, which it reads as an `l`. -/
inductive Visits : Kind → Value → List Step → Kind → Value → Prop where
  | here (k : Kind) (v : Value) : Visits k v [] k v
  | part {k l : Kind} {v w u : Value} {parts : List Part} {p : Part} {path : List Step}
    (hparts : k.inspect v = .ok parts) (hp : p ∈ parts) (hvalue : p.value = some w)
    (hstep : v.step? p.step = some w) (hrest : Visits p.kind w path l u) :
    Visits k v (p.step :: path) l u

theorem Visits.follow {k l : Kind} {v u : Value} {path : List Step} (h : Visits k v path l u) :
    v.follow? path = some u := by
  induction h with
  | here k v => rfl
  | part _ _ _ hstep _ ih =>
    rw [Value.follow?, hstep]
    exact ih

/-- The mismatch says what is wrong with `u`, which stands at `path`, or that a part of it is
missing. -/
inductive Mismatch.StandsAt (m : Mismatch) (path : List Step) (l : Kind) (u : Value) : Prop where
  | value {expected found : String} (h : l.inspect u = .error (expected, found))
    (hm : m = ⟨path, expected, found⟩)
  | missing {parts : List Part} {p : Part} (h : l.inspect u = .ok parts) (hp : p ∈ parts)
    (hvalue : p.value = none) (hm : m = ⟨path ++ [p.step], "a value", "nothing"⟩)

theorem Mismatch.StandsAt.under {m : Mismatch} {path : List Step} {l : Kind} {u : Value}
    (h : m.StandsAt path l u) (step : Step) : (m.under step).StandsAt (step :: path) l u := by
  cases h with
  | value h hm =>
    rw [hm]
    exact .value h rfl
  | missing h hp hvalue hm =>
    rw [hm]
    exact .missing h hp hvalue rfl

theorem Kind.faults_null {k : Kind} (hk : k.acceptsNull = true) : k.faults .null = [] := by
  rw [faults_eq, inspect, hk]
  rfl

/-- Every fault stands at a place that the reader visits. -/
theorem Kind.visits_of_mem_faults {k : Kind} {v : Value} {m : Mismatch} (hm : m ∈ k.faults v) :
    ∃ path l u, Visits k v path l u ∧ m.StandsAt path l u := by
  induction hd : v.depth using Nat.strongRecOn generalizing k v m with
  | ind d ih =>
    subst hd
    rcases hparts : k.inspect v with ⟨expected, found⟩ | parts
    · rw [faults_of_error hparts, List.mem_singleton] at hm
      exact ⟨[], k, v, .here k v, .value hparts hm⟩
    · rw [faults_of_ok hparts] at hm
      obtain ⟨p, hp, hm⟩ := List.mem_flatMap.mp hm
      unfold Part.faults at hm
      cases hvalue : p.value with
      | none =>
        rw [hvalue, List.mem_singleton] at hm
        exact ⟨[], k, v, .here k v, .missing hparts hp hvalue hm⟩
      | some w =>
        rw [hvalue] at hm
        obtain ⟨m', hm', rfl⟩ := List.mem_map.mp hm
        rcases standsIn hparts hp with hstep | ⟨-, hnull, hk⟩
        · rw [hvalue] at hstep
          have hdepth := depth_inspect_lt hparts hp hvalue
          obtain ⟨path, l, u, hvisits, hstands⟩ := ih w.depth hdepth hm' rfl
          exact ⟨p.step :: path, l, u, .part hparts hp hvalue hstep hvisits, hstands.under p.step⟩
        · -- A part that reads as null has no faults.
          rw [hvalue] at hnull
          cases hnull
          rw [faults_null hk] at hm'
          cases hm'

/-! ## What is reported -/

def Kind.Lacks (t c : String) : Prop :=
  ∃ (k : Kind) (slots? : String → Option (List Slot)), k.shape = .enum t slots? ∧ slots? c = none

/-- What a reader may say of a value that does not fit. -/
inductive Value.ReportedAs : Value → (expected found : String) → Prop where
  | itself (v : Value) (expected : String) : ReportedAs v expected v.describe
  | unknown {t c : String} (h : Kind.Lacks t c) (index : Nat) (args : List Value) :
    ReportedAs (.enum t c index args) ("a " ++ t ++ " constructor") c
  | outOfRange {i : Int64} (h : ¬ (0 ≤ i.toInt ∧ i.toInt < 4294967296)) :
    ReportedAs (.int i) "Position offset" (wholeText i)

/-- The mismatch says of the value at its place in `v` what may be said of it, or it stands at an
argument that a constructor in `v` does not have. -/
inductive Mismatch.IsTrueOf (m : Mismatch) (v : Value) : Prop where
  | value {w : Value} (hplace : v.follow? m.path = some w) (h : w.ReportedAs m.expected m.found)
  | missing {path : List Step} {t c : String} {index i : Nat} {args : List Value}
    (hpath : m.path = path ++ [.arg c i]) (hplace : v.follow? path = some (.enum t c index args))
    (h : args.length ≤ i) (hexpected : m.expected = "a value") (hfound : m.found = "nothing")

namespace Kind

theorem reportedAs_of_checkOffset {v : Value} {expected found : String}
    (h : checkOffset v = some (expected, found)) : v.ReportedAs expected found := by
  cases v with
  | int i =>
    rw [checkOffset] at h
    split at h
    · cases h
    · rename_i hi
      cases h
      exact .outOfRange hi
  | _ =>
    cases h
    exact .itself ..

theorem reportedAs_of_checkFile {v : Value} {expected found : String}
    (h : checkFile v = some (expected, found)) : v.ReportedAs expected found := by
  cases v with
  | int i =>
    rw [checkFile] at h
    split at h
    · cases h
    · exact reportedAs_of_checkOffset h
  | _ =>
    cases h
    exact .itself ..

theorem reportedAs_of_plain {name : String} {fits : Value → Bool} {v : Value}
    {expected found : String} (h : plain name fits v = some (expected, found)) :
    v.ReportedAs expected found := by
  unfold plain at h
  split at h
  · cases h
  · cases h
    exact .itself ..

theorem reportedAs_of_leaf {k : Kind} {check : Value → Option (String × String)} {v : Value}
    {expected found : String} (hk : k.shape = .leaf check)
    (h : check v = some (expected, found)) : v.ReportedAs expected found := by
  induction k with
  | file =>
    cases hk
    exact reportedAs_of_checkFile h
  | offset =>
    cases hk
    exact reportedAs_of_checkOffset h
  | string | bool | flag | int =>
    cases hk
    exact reportedAs_of_plain h
  | optional k ih => exact ih hk
  | _ => cases hk

theorem reportedAs_of_shape {k : Kind} {v : Value} {expected found : String}
    (h : k.shape.inspect v = .error (expected, found)) : v.ReportedAs expected found := by
  cases hk : k.shape with
  | leaf check =>
    rw [hk, Shape.inspect] at h
    cases hc : check v with
    | none =>
      rw [hc] at h
      cases h
    | some fault =>
      rw [hc] at h
      cases h
      exact reportedAs_of_leaf hk hc
  | object expected' fields =>
    rw [hk] at h
    cases v <;> cases h <;> exact .itself ..
  | enum type slots? =>
    rw [hk] at h
    cases v with
    | enum t c index args =>
      simp only [Shape.inspect] at h
      split at h
      · rename_i ht
        subst ht
        cases hs : slots? c with
        | some slots =>
          rw [hs] at h
          cases h
        | none =>
          rw [hs] at h
          cases h
          exact .unknown ⟨k, slots?, hk, hs⟩ index args
      · cases h
        exact .itself ..
    | _ =>
      cases h
      exact .itself ..
  | array item =>
    rw [hk] at h
    cases v <;> cases h <;> exact .itself ..

theorem reportedAs_of_inspect {k : Kind} {v : Value} {expected found : String}
    (h : k.inspect v = .error (expected, found)) : v.ReportedAs expected found := by
  unfold inspect at h
  split at h
  · cases h
  · exact reportedAs_of_shape h

end Kind

theorem Slot.missing_arg {c : String} {args : List Value} {i : Nat} {slots : List Slot} {p : Part}
    (hp : p ∈ Slot.parts c args i slots) (hvalue : p.value = none) :
    ∃ j, p.step = .arg c j ∧ args.length ≤ j := by
  induction slots generalizing i with
  | nil => cases hp
  | cons slot slots ih =>
    rcases List.mem_cons.mp hp with rfl | hp
    · refine ⟨i, rfl, ?_⟩
      cases hn : slot.isNeeded <;> simp_all
    · exact ih hp

theorem Kind.missing_arg {k : Kind} {v : Value} {parts : List Part} {p : Part}
    (h : k.inspect v = .ok parts) (hp : p ∈ parts) (hvalue : p.value = none) :
    ∃ t c index args i, v = .enum t c index args ∧ p.step = .arg c i ∧ args.length ≤ i := by
  cases inspected h with
  | null | leaf => cases hp
  | object =>
    obtain ⟨field, -, rfl⟩ := List.mem_map.mp hp
    cases hvalue
  | enum =>
    obtain ⟨i, hstep, hi⟩ := Slot.missing_arg hp hvalue
    exact ⟨_, _, _, _, i, rfl, hstep, hi⟩
  | array =>
    obtain ⟨w, -, hw⟩ := mem_itemParts hp
    rw [hw] at hvalue
    cases hvalue

theorem Kind.isTrueOf_of_mem_faults {k : Kind} {v : Value} {m : Mismatch} (hm : m ∈ k.faults v) :
    m.IsTrueOf v := by
  obtain ⟨path, l, u, hvisits, hstands⟩ := visits_of_mem_faults hm
  have hplace := hvisits.follow
  cases hstands with
  | value h hm =>
    rw [hm]
    exact .value hplace (reportedAs_of_inspect h)
  | missing h hp hvalue hm =>
    obtain ⟨t, c, index, args, i, rfl, hstep, hi⟩ := missing_arg h hp hvalue
    rw [hm, hstep]
    exact .missing rfl hplace hi rfl rfl

/-! ## The verdict -/

namespace Kind

def noted (k : Kind) (v : Value) : List Mismatch := (k.read v.depth v .start).2.mismatches

theorem noted_eq_faults (k : Kind) (v : Value) : k.noted v = k.faults v := by
  have h := (notes_read (Nat.le_refl v.depth) k).mismatches .start
  rw [noted, h]
  simp [Walk.start]

theorem faults_decode (k : Kind) (v : Value) : (k.decode v).faults = k.faults v :=
  (notes_read (Nat.le_refl v.depth) k).faults_verdict k.label v

/-- The verdict on a value can be relied on: wherever a reader is put into a walk, it goes back to
where it started, and it comes to no result exactly if it notes a mismatch. So a whole value is read
exactly if nothing is noted, what is reported is what was noted, and all of it is true of the
value. -/
theorem decode_sound (k : Kind) (v : Value) :
    (∀ (extra : Nat) (w : Walk), ∃ new,
      (k.read (v.depth + extra) v w).2 = ⟨w.path, w.mismatches ++ new⟩ ∧
        ((k.read (v.depth + extra) v w).1 = none ↔ new ≠ [])) ∧
      ((∃ a, k.decode v = .ok a) ↔ k.noted v = []) ∧
      (k.decode v).faults = k.noted v ∧
      ∀ m ∈ (k.decode v).faults, m.IsTrueOf v := by
  refine ⟨?_, ?_, ?_, ?_⟩
  · intro extra w
    have h := notes_read (Nat.le_add_right v.depth extra) k
    refine ⟨(k.faults v).map (·.beneath w.path), h.walk_eq w, ?_⟩
    rw [h.result w, ne_eq, ne_eq, List.map_eq_nil_iff]
  · rw [← Decoded.faults_eq_nil_iff, faults_decode, noted_eq_faults]
  · rw [faults_decode, noted_eq_faults]
  · intro m hm
    rw [faults_decode] at hm
    exact isTrueOf_of_mem_faults hm

end Kind

end HaxeMacro
