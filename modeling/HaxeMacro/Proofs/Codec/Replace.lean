import HaxeMacro.Proofs.Codec.Visit

/-! # Other values in the same place

If the value at a visited place is replaced, all faults elsewhere stay as they are, and the faults
at the place are those of the new value.
-/

namespace HaxeMacro

/-! ## Replacing -/

def Value.setPart : Value → Step → Value → Value
  | .object fields, .field name, w => .object (Entries.set fields name w)
  | .enum t c index args, .arg c' i, w =>
    if c = c' then .enum t c index (args.set i w) else .enum t c index args
  | .array items, .item i, w => .array (items.set i w)
  | v, _, _ => v

/-- The value with `w` in the place that the path leads to. -/
def Value.replace (v : Value) (path : List Step) (w : Value) : Value :=
  match path with
  | [] => w
  | step :: rest =>
    match v.step? step with
    | some u => v.setPart step (u.replace rest w)
    | none => v

def Part.set (step : Step) (w : Value) (p : Part) : Part :=
  if p.step = step then { p with value := some w } else p

namespace Part

variable {step : Step} {w : Value}

theorem set_self (p : Part) : p.set p.step w = { p with value := some w } := if_pos rfl

theorem set_of_ne {p : Part} (h : p.step ≠ step) : p.set step w = p := if_neg h

theorem map_set_of_ne {parts : List Part} (h : ∀ p ∈ parts, p.step ≠ step) :
    parts.map (set step w) = parts := by
  induction parts with
  | nil => rfl
  | cons p ps ih =>
    have hps := ih fun q hq => h q (List.mem_cons_of_mem _ hq)
    rw [List.map_cons, set_of_ne (h p List.mem_cons_self), hps]

end Part

/-! ## The parts of the changed value -/

theorem Fields.get_set_self (fields : Fields) (name : String) (w : Value) :
    Fields.get (Entries.set fields name w) name = w := by
  rw [get, Entries.get?_set_self]
  rfl

theorem Fields.get_set_of_ne (fields : Fields) {name other : String} (h : name ≠ other)
    (w : Value) : Fields.get (Entries.set fields name w) other = Fields.get fields other := by
  rw [get, Entries.get?_set_of_ne fields h]
  rfl

theorem fieldPart_set (given : Fields) (name : String) (w : Value) (field : String × Kind) :
    fieldPart (Entries.set given name w) field = (fieldPart given field).set (.field name) w := by
  by_cases hname : name = field.1
  · subst hname
    have hstep : (fieldPart given field).step = .field field.1 := rfl
    rw [Part.set, if_pos hstep, fieldPart, Fields.get_set_self]
    rfl
  · have hne : (fieldPart given field).step ≠ .field name := by
      intro hfield
      injection hfield with hother
      exact hname hother.symm
    rw [Part.set_of_ne hne, fieldPart, Fields.get_set_of_ne given hname]
    rfl

theorem Slot.parts_set {c : String} {args : List Value} {i j : Nat} (hj : j < args.length)
    (w : Value) (slots : List Slot) :
    Slot.parts c (args.set j w) i slots =
      (Slot.parts c args i slots).map (Part.set (.arg c j) w) := by
  induction slots generalizing i with
  | nil => rfl
  | cons slot slots ih =>
    rw [Slot.parts, Slot.parts, List.map_cons, ih]
    congr 1
    by_cases hij : i = j
    · subst hij
      rw [Part.set, if_pos rfl, List.getElem?_set_self hj]
      cases slot.isNeeded <;> rfl
    · have hstep : Step.arg c i ≠ .arg c j := by
        intro h
        cases h
        exact hij rfl
      rw [Part.set_of_ne hstep, List.getElem?_set_ne (Ne.symm hij)]

theorem le_of_mem_itemParts {item : Kind} {i : Nat} {items : List Value} {p : Part}
    (hp : p ∈ itemParts item i items) : ∃ j, p.step = .item j ∧ i ≤ j := by
  induction items generalizing i with
  | nil => cases hp
  | cons v vs ih =>
    rcases List.mem_cons.mp hp with rfl | hp
    · exact ⟨i, rfl, Nat.le_refl i⟩
    · obtain ⟨j, hstep, hj⟩ := ih hp
      exact ⟨j, hstep, by omega⟩

theorem le_of_mem_parts {c : String} {args : List Value} {i : Nat} {slots : List Slot} {p : Part}
    (hp : p ∈ Slot.parts c args i slots) : ∃ j, p.step = .arg c j ∧ i ≤ j := by
  induction slots generalizing i with
  | nil => cases hp
  | cons slot slots ih =>
    rcases List.mem_cons.mp hp with rfl | hp
    · exact ⟨i, rfl, Nat.le_refl i⟩
    · obtain ⟨j, hstep, hj⟩ := ih hp
      exact ⟨j, hstep, by omega⟩

theorem itemParts_set (item : Kind) (i j : Nat) (w : Value) (items : List Value) :
    itemParts item i (items.set j w) =
      (itemParts item i items).map (Part.set (.item (i + j)) w) := by
  induction items generalizing i j with
  | nil => rfl
  | cons v vs ih =>
    cases j with
    | zero =>
      have hrest : ∀ p ∈ itemParts item (i + 1) vs, p.step ≠ .item i := by
        intro p hp h
        obtain ⟨j, hstep, hj⟩ := le_of_mem_itemParts hp
        rw [hstep] at h
        cases h
        omega
      rw [List.set_cons_zero, itemParts, itemParts, List.map_cons, Nat.add_zero i,
        Part.map_set_of_ne hrest, Part.set, if_pos rfl]
    | succ j =>
      have hstep : Step.item i ≠ .item (i + (j + 1)) := by
        intro h
        injection h with h
        omega
      rw [List.set_cons_succ, itemParts, itemParts, List.map_cons, Part.set_of_ne hstep, ih]
      have hj : i + 1 + j = i + (j + 1) := by omega
      rw [hj]

/-! ## Parts are told apart by their places -/

def Apart (parts : List Part) : Prop := parts.Pairwise fun p q => p.step ≠ q.step

theorem apart_itemParts (item : Kind) (i : Nat) (items : List Value) :
    Apart (itemParts item i items) := by
  induction items generalizing i with
  | nil => exact List.Pairwise.nil
  | cons v vs ih =>
    refine List.Pairwise.cons ?_ (ih (i + 1))
    intro p hp h
    obtain ⟨j, hstep, hj⟩ := le_of_mem_itemParts hp
    rw [hstep] at h
    cases h
    omega

theorem Slot.apart_parts (c : String) (args : List Value) (i : Nat) (slots : List Slot) :
    Apart (Slot.parts c args i slots) := by
  induction slots generalizing i with
  | nil => exact List.Pairwise.nil
  | cons slot slots ih =>
    refine List.Pairwise.cons ?_ (ih (i + 1))
    intro p hp h
    obtain ⟨j, hstep, hj⟩ := le_of_mem_parts hp
    rw [hstep] at h
    cases h
    omega

theorem Kind.nodup_fields {k : Kind} {expected : String} {fields : List (String × Kind)}
    (hk : k.shape = .object expected fields) : (fields.map (·.1)).Nodup := by
  induction k with
  | optional k ih => exact ih hk
  | _ =>
    cases hk
    all_goals decide

theorem Kind.apart {k : Kind} {v : Value} {parts : List Part} (h : k.inspect v = .ok parts) :
    Apart parts := by
  cases inspected h with
  | null | leaf => exact List.Pairwise.nil
  | object hs given =>
    rw [Apart, List.pairwise_map]
    refine (List.pairwise_map.mp (nodup_fields hs)).imp fun hne hstep => ?_
    injection hstep with hname
    exact hne hname
  | enum => exact Slot.apart_parts ..
  | array => exact apart_itemParts ..

/-! ## Replacing a part -/

/-- Replacing a part replaces its value and nothing else. -/
theorem Kind.inspect_setPart {k : Kind} {v u : Value} {parts : List Part} {p : Part}
    (h : k.inspect v = .ok parts) (hp : p ∈ parts) (hstep : v.step? p.step = some u) (w : Value) :
    k.inspect (v.setPart p.step w) = .ok (parts.map (Part.set p.step w)) := by
  cases inspected h with
  | null | leaf => cases hp
  | @object expected fields hs given =>
    obtain ⟨field, -, rfl⟩ := List.mem_map.mp hp
    have hset : (Value.object given).setPart (fieldPart given field).step w =
        .object (Entries.set given field.1 w) := rfl
    rw [hset, inspect_of_ne_null k Value.noConfusion, hs, Shape.inspect, List.map_map]
    congr 2
    funext other
    exact fieldPart_set given field.1 w other
  | @enum t c slots? slots hs hc index args =>
    obtain ⟨j, hj, -⟩ := le_of_mem_parts hp
    rw [hj] at hstep ⊢
    have hget : args[j]? = some u := by
      rw [← hstep]
      exact (if_pos rfl).symm
    obtain ⟨hlength, -⟩ := List.getElem?_eq_some_iff.mp hget
    rw [← Slot.parts_set hlength, Value.setPart, if_pos rfl,
      inspect_of_ne_null k Value.noConfusion, hs]
    simp only [Shape.inspect, if_true, hc]
  | @array item hs items =>
    obtain ⟨j, hj, -⟩ := le_of_mem_itemParts hp
    have hset := itemParts_set item 0 j w items
    rw [Nat.zero_add] at hset
    rw [hj, ← hset, Value.setPart, inspect_of_ne_null k Value.noConfusion, hs, Shape.inspect]

theorem Kind.inspect_setPart_append {k : Kind} {v u : Value} {ps qs : List Part} {p : Part}
    (h : k.inspect v = .ok (ps ++ p :: qs)) (hstep : v.step? p.step = some u) (w : Value) :
    k.inspect (v.setPart p.step w) = .ok (ps ++ { p with value := some w } :: qs) := by
  have hapart := List.pairwise_append.mp (apart h)
  have hps : ∀ q ∈ ps, q.step ≠ p.step := fun q hq => hapart.2.2 q hq p List.mem_cons_self
  have hqs : ∀ q ∈ qs, q.step ≠ p.step := fun q hq =>
    (List.rel_of_pairwise_cons hapart.2.1 hq).symm
  have hinspect := inspect_setPart h (by simp) hstep w
  rwa [List.map_append, List.map_cons, Part.map_set_of_ne hps, Part.map_set_of_ne hqs,
    Part.set_self] at hinspect

/-! ## Faults around a place -/

theorem Part.prefix_of_mem_faults {p : Part} {m : Mismatch} (hm : m ∈ p.faults) :
    ∃ rest, m.path = p.step :: rest := by
  unfold faults at hm
  split at hm
  · obtain ⟨m', -, rfl⟩ := List.mem_map.mp hm
    exact ⟨m'.path, rfl⟩
  · rw [List.mem_singleton.mp hm]
    exact ⟨[], rfl⟩

theorem Part.faults_of_value {p : Part} {w : Value} (h : p.value = some w) :
    p.faults = (p.kind.faults w).map (·.under p.step) := by
  rw [faults, h]

theorem Mismatch.map_under_beneath (ms : List Mismatch) (step : Step) (path : List Step) :
    (ms.map (·.beneath path)).map (·.under step) = ms.map (·.beneath (step :: path)) := by
  rw [List.map_map]
  rfl

/-- A fault of another part is not at or below this one. -/
theorem Part.elsewhere {p q : Part} {m : Mismatch} {path : List Step} (hm : m ∈ q.faults)
    (hne : q.step ≠ p.step) : ¬ p.step :: path <+: m.path := by
  obtain ⟨rest, hrest⟩ := prefix_of_mem_faults hm
  rw [hrest, List.cons_prefix_cons]
  rintro ⟨hstep, -⟩
  exact hne hstep.symm

/-- The faults at the place are those of the value that stands there; those before and after them
are elsewhere, whatever value it is. -/
theorem Visits.faults_replace {k l : Kind} {v u : Value} {path : List Step}
    (h : Visits k v path l u) :
    ∃ before after, (∀ m ∈ before ++ after, ¬ path <+: m.path) ∧
      k.faults v = before ++ (l.faults u).map (·.beneath path) ++ after ∧
      ∀ w, k.faults (v.replace path w) = before ++ (l.faults w).map (·.beneath path) ++ after := by
  induction h with
  | here k v => exact ⟨[], [], by simp, by simp, by simp [Value.replace]⟩
  | @part k l v w u parts p path hparts hp hvalue hstep hrest ih =>
    obtain ⟨before, after, helsewhere, hfaults, hreplace⟩ := ih
    obtain ⟨ps, qs, rfl⟩ := List.append_of_mem hp
    have hapart := List.pairwise_append.mp (Kind.apart hparts)
    have hps : ∀ q ∈ ps, q.step ≠ p.step := fun q hq => hapart.2.2 q hq p List.mem_cons_self
    have hqs : ∀ q ∈ qs, q.step ≠ p.step := fun q hq =>
      (List.rel_of_pairwise_cons hapart.2.1 hq).symm
    refine ⟨ps.flatMap Part.faults ++ before.map (·.under p.step),
      after.map (·.under p.step) ++ qs.flatMap Part.faults, ?_, ?_, ?_⟩
    · -- Faults of the other parts, and faults of this part that are elsewhere in it.
      intro m hm
      simp only [List.mem_append, List.mem_flatMap, List.mem_map] at hm
      rcases hm with (⟨q, hq, hm⟩ | ⟨m, hm, rfl⟩) | (⟨m, hm, rfl⟩ | ⟨q, hq, hm⟩)
      · exact Part.elsewhere hm (hps q hq)
      · intro hbelow
        exact helsewhere m (List.mem_append_left _ hm) (List.cons_prefix_cons.mp hbelow).2
      · intro hbelow
        exact helsewhere m (List.mem_append_right _ hm) (List.cons_prefix_cons.mp hbelow).2
      · exact Part.elsewhere hm (hqs q hq)
    · rw [Kind.faults_of_ok hparts, List.flatMap_append, List.flatMap_cons,
        Part.faults_of_value hvalue, hfaults, List.map_append, List.map_append,
        Mismatch.map_under_beneath]
      simp only [List.append_assoc]
    · intro x
      have hinspect := Kind.inspect_setPart_append hparts hstep (w.replace path x)
      have hvalue' : (v.replace (p.step :: path) x) = v.setPart p.step (w.replace path x) := by
        rw [Value.replace, hstep]
      rw [hvalue', Kind.faults_of_ok hinspect, List.flatMap_append, List.flatMap_cons,
        Part.faults_of_value rfl, hreplace, List.map_append, List.map_append,
        Mismatch.map_under_beneath]
      simp only [List.append_assoc]

/-! ## No fault hides another one -/

theorem Mismatch.prefix_beneath (path : List Step) (m : Mismatch) :
    path <+: (m.beneath path).path := List.prefix_append path m.path

/-- The mismatches at or below a place. -/
def within (path : List Step) (ms : List Mismatch) : List Mismatch :=
  ms.filter fun m => path.isPrefixOf m.path

/-- The mismatches elsewhere. -/
def outside (path : List Step) (ms : List Mismatch) : List Mismatch :=
  ms.filter fun m => !path.isPrefixOf m.path

section Around

variable {path : List Step} {before after : List Mismatch}
  (h : ∀ m ∈ before ++ after, ¬ path <+: m.path) (ms : List Mismatch)
include h

theorem within_around :
    within path (before ++ ms.map (·.beneath path) ++ after) = ms.map (·.beneath path) := by
  have hbefore : within path before = [] := by
    refine List.filter_eq_nil_iff.mpr fun m hm => ?_
    rw [List.isPrefixOf_iff_prefix]
    exact h m (List.mem_append_left _ hm)
  have hafter : within path after = [] := by
    refine List.filter_eq_nil_iff.mpr fun m hm => ?_
    rw [List.isPrefixOf_iff_prefix]
    exact h m (List.mem_append_right _ hm)
  have hmiddle : within path (ms.map (·.beneath path)) = ms.map (·.beneath path) := by
    refine List.filter_eq_self.mpr fun m hm => ?_
    obtain ⟨m', -, rfl⟩ := List.mem_map.mp hm
    exact List.isPrefixOf_iff_prefix.mpr (Mismatch.prefix_beneath path m')
  unfold within at *
  rw [List.filter_append, List.filter_append, hbefore, hafter, hmiddle]
  simp

theorem outside_around :
    outside path (before ++ ms.map (·.beneath path) ++ after) = before ++ after := by
  have hself : ∀ ns, (∀ m ∈ ns, m ∈ before ++ after) → outside path ns = ns := by
    intro ns hns
    refine List.filter_eq_self.mpr fun m hm => ?_
    have hm := h m (hns m hm)
    rw [← List.isPrefixOf_iff_prefix] at hm
    rw [Bool.eq_false_iff.mpr hm]
    rfl
  have hbefore := hself before fun m hm => List.mem_append_left _ hm
  have hafter := hself after fun m hm => List.mem_append_right _ hm
  have hmiddle : outside path (ms.map (·.beneath path)) = [] := by
    refine List.filter_eq_nil_iff.mpr fun m hm => ?_
    obtain ⟨m', -, rfl⟩ := List.mem_map.mp hm
    have hbelow := List.isPrefixOf_iff_prefix.mpr (Mismatch.prefix_beneath path m')
    rw [hbelow]
    exact Bool.false_ne_true
  unfold outside at *
  rw [List.filter_append, List.filter_append, hbefore, hafter, hmiddle]
  simp

end Around

/-- Replacing the value at a visited place changes no mismatch elsewhere, and those at or below the
place are those of the new value read on its own. -/
theorem Kind.decode_replace {k l : Kind} {v u : Value} {path : List Step}
    (h : Visits k v path l u) (w : Value) :
    outside path (k.decode (v.replace path w)).faults = outside path (k.decode v).faults ∧
      within path (k.decode (v.replace path w)).faults =
        (l.decode w).faults.map (·.beneath path) := by
  obtain ⟨before, after, helsewhere, hfaults, hreplace⟩ := h.faults_replace
  rw [faults_decode, faults_decode, faults_decode, hfaults, hreplace,
    outside_around helsewhere, outside_around helsewhere, within_around helsewhere]
  exact ⟨rfl, rfl⟩

/-- In a position whose first offset is a string, an offset that is out of range comes instead. -/
theorem Kind.decode_replace_offset :
    let v : Value := .object [("file", .null), ("min", .string "first"), ("max", .int 4)]
    let path := [Step.field "min"]
    outside path (Kind.position.decode (v.replace path (.int (-1)))).faults =
        outside path (Kind.position.decode v).faults ∧
      within path (Kind.position.decode (v.replace path (.int (-1)))).faults =
        (Kind.offset.decode (.int (-1))).faults.map (·.beneath path) := by
  refine Kind.decode_replace (u := .string "first") ?_ (.int (-1))
  refine .part (p := ⟨.field "min", .offset, some (.string "first")⟩) rfl ?_ rfl rfl (.here ..)
  simp [fieldPart, Fields.get, Entries.get?]

end HaxeMacro
