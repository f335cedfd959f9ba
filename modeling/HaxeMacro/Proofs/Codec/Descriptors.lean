import HaxeMacro.Proofs.Codec.Reencoding
import HaxeMacro.Proofs.Codec.Replace
import Mathlib.Data.List.Forall2

/-! # What a type descriptor keeps

Of a type descriptor, the reader keeps everything that it looks at, but of the numbers of unknown
types only the lowest 32 bits.
-/

namespace HaxeMacro

/-! ## Values that say the same -/

/-- The values say the same, leaving aside their parts. -/
def Value.SameHead : Value → Value → Prop
  | .object _, .object _ => True
  | .enum t c _ _, .enum t' c' _ _ => t = t' ∧ c = c'
  | .array vs, .array ws => vs.length = ws.length
  | .null, .bool b => b = false
  | v, w => v = w

def lowWord (m : Int64) : Int64 := Int64.ofInt (m.toInt % 4294967296)

/-- The value itself, but of an integer only the lowest 32 bits. -/
def Value.narrowed : Value → Value
  | .int m => .int (lowWord m)
  | v => v

/-- Both values have the same places for a reader of the kind, with related values in them. -/
structure Kind.Agree (k : Kind) (same : Value → Value → Prop) (v s : Value) : Prop where
  forth {path : List Step} {l : Kind} {u : Value} (h : Visits k v path l u) :
    ∃ w, Visits k s path l w ∧ same u w
  back {path : List Step} {l : Kind} {w : Value} (h : Visits k s path l w) :
    ∃ u, Visits k v path l u ∧ same u w

theorem toInt_lowWord (m : Int64) : (lowWord m).toInt = m.toInt % 4294967296 := by
  rw [lowWord, Int64.toInt_ofInt_of_le] <;> omega

theorem lowWord_inj {m n : Int64} :
    lowWord m = lowWord n ↔ m.toInt % 4294967296 = n.toInt % 4294967296 := by
  rw [← Int64.toInt_inj, toInt_lowWord, toInt_lowWord]

theorem lowWord_eq_self_iff {m : Int64} :
    lowWord m = m ↔ 0 ≤ m.toInt ∧ m.toInt < 4294967296 := by
  rw [← Int64.toInt_inj, toInt_lowWord]
  omega

theorem ofNat_eq_lowWord (m : Int64) :
    Int64.ofNat (m.toUInt64.toNat % 4294967296) = lowWord m := by
  have hbits : m.toInt = Int.bmod m.toUInt64.toNat (2 ^ 64) :=
    BitVec.toInt_eq_toNat_bmod m.toBitVec
  have hmod : m.toInt % 4294967296 = m.toUInt64.toNat % 4294967296 := by
    have hdvd : (4294967296 : Int) ∣ (2 ^ 64 : Nat) := by decide
    rw [hbits, ← Int.emod_emod_of_dvd _ hdvd, Int.bmod_emod, Int.emod_emod_of_dvd _ hdvd]
  rw [lowWord, hmod]
  rfl

theorem Value.sameHead_int_iff {m : Int64} {w : Value} :
    (Value.int m).SameHead w ↔ .int m = w := by
  cases w <;> rfl

/-! ## Parts with their standard forms -/

def Part.holding (p : Part) (w : Value) : Part := { p with value := some w }

theorem forall₂_of_mapM {parts : List Part} {ws : List Value}
    (h : parts.mapM Part.standard? = some ws) :
    List.Forall₂ (fun p w => p.standard? = some w) parts ws := by
  induction parts generalizing ws with
  | nil =>
    cases h
    exact .nil
  | cons p ps ih =>
    rw [List.mapM_cons] at h
    obtain ⟨w, hw, h⟩ := Option.bind_eq_some_iff.mp h
    obtain ⟨us, hus, h⟩ := Option.bind_eq_some_iff.mp h
    cases h
    exact .cons hw (ih hus)

namespace Part

variable {parts : List Part} {ws : List Value}
  (h : List.Forall₂ (fun p w => p.standard? = some w) parts ws)
include h

theorem holding_mem {p : Part} (hp : p ∈ parts) :
    ∃ w, p.standard? = some w ∧ p.holding w ∈ parts.zipWith holding ws := by
  induction h with
  | nil => cases hp
  | cons hw _ ih =>
    rcases List.mem_cons.mp hp with rfl | hp
    · exact ⟨_, hw, List.mem_cons_self⟩
    · obtain ⟨w, hstandard, hmem⟩ := ih hp
      exact ⟨w, hstandard, List.mem_cons_of_mem _ hmem⟩

theorem of_mem_holding {q : Part} (hq : q ∈ parts.zipWith holding ws) :
    ∃ p ∈ parts, ∃ w, p.standard? = some w ∧ q = p.holding w := by
  induction h with
  | nil => cases hq
  | cons hw _ ih =>
    rcases List.mem_cons.mp hq with rfl | hq
    · exact ⟨_, List.mem_cons_self, _, hw, rfl⟩
    · obtain ⟨p, hp, hrest⟩ := ih hq
      exact ⟨p, List.mem_cons_of_mem _ hp, hrest⟩

end Part

theorem Kind.exists_of_standard? {k : Kind} {v s : Value} (h : k.standard? v = some s) :
    ∃ parts ws, k.inspect v = .ok parts ∧ s = k.rebuild v ws ∧
      List.Forall₂ (fun p w => p.standard? = some w) parts ws := by
  rw [standard?_eq] at h
  cases hparts : k.inspect v with
  | error fault =>
    rw [hparts] at h
    cases h
  | ok parts =>
    rw [hparts, standardOf] at h
    obtain ⟨ws, hws, rfl⟩ := Option.map_eq_some_iff.mp h
    exact ⟨parts, ws, rfl, rfl, forall₂_of_mapM hws⟩

/-! ## The parts of a standard form -/

theorem Fields.map_get_zip {names : List String} (h : names.Nodup) {ws : List Value}
    (hlength : ws.length = names.length) : names.map (Fields.get (names.zip ws)) = ws := by
  induction names generalizing ws with
  | nil => exact (List.eq_nil_of_length_eq_zero hlength).symm
  | cons name names ih =>
    cases ws with
    | nil => cases hlength
    | cons w ws =>
      obtain ⟨hname, hnames⟩ := List.nodup_cons.mp h
      have hrest : names.map (Fields.get ((name, w) :: names.zip ws)) =
          names.map (Fields.get (names.zip ws)) := by
        refine List.map_congr_left fun other hother => ?_
        rw [Fields.get_cons, if_neg (by rintro rfl; exact hname hother)]
      rw [List.zip_cons_cons, List.map_cons, hrest, ih hnames (Nat.succ.inj hlength),
        Fields.get_cons, if_pos rfl]

theorem map_fieldPart (given given' : Fields) (fields : List (String × Kind)) :
    fields.map (fieldPart given') = (fields.map (fieldPart given)).zipWith Part.holding
      ((fields.map Prod.fst).map (Fields.get given')) := by
  induction fields with
  | nil => rfl
  | cons field fields ih =>
    rw [List.map_cons, ih]
    rfl

theorem Slot.length_parts (c : String) (args : List Value) (i : Nat) (slots : List Slot) :
    (Slot.parts c args i slots).length = slots.length := by
  induction slots generalizing i with
  | nil => rfl
  | cons slot slots ih => exact congrArg Nat.succ (ih (i + 1))

theorem Slot.parts_append {c : String} (args done rest : List Value) {i : Nat}
    {slots : List Slot} {ws : List Value} (hi : done.length = i) (hlength : ws.length = slots.length) :
    Slot.parts c (done ++ (ws ++ rest)) i slots =
      (Slot.parts c args i slots).zipWith Part.holding ws := by
  induction slots generalizing done ws i with
  | nil => rfl
  | cons slot slots ih =>
    cases ws with
    | nil => cases hlength
    | cons w ws =>
      have hget : (done ++ (w :: ws ++ rest))[i]? = some w := by
        rw [← hi, List.getElem?_append_right (Nat.le_refl _), Nat.sub_self]
        rfl
      have hrest := ih (done ++ [w]) (i := i + 1) (by simp [hi]) (Nat.succ.inj hlength)
      rw [List.append_assoc] at hrest
      rw [Slot.parts, Slot.parts, hget, List.zipWith_cons_cons, ← hrest]
      cases slot.isNeeded <;> rfl

theorem length_itemParts (item : Kind) (i : Nat) (items : List Value) :
    (itemParts item i items).length = items.length := by
  induction items generalizing i with
  | nil => rfl
  | cons v vs ih => exact congrArg Nat.succ (ih (i + 1))

theorem itemParts_eq_zipWith (item : Kind) (i : Nat) {items ws : List Value}
    (hlength : ws.length = items.length) :
    itemParts item i ws = (itemParts item i items).zipWith Part.holding ws := by
  induction items generalizing ws i with
  | nil =>
    rw [List.eq_nil_of_length_eq_zero hlength]
    rfl
  | cons v vs ih =>
    cases ws with
    | nil => cases hlength
    | cons w ws =>
      rw [itemParts, itemParts, List.zipWith_cons_cons, ih (i + 1) (Nat.succ.inj hlength)]
      rfl

/-! ## Kinds in a type descriptor -/

theorem Slot.kind_of_mem_parts {c : String} {args : List Value} {i : Nat} {slots : List Slot}
    {p : Part} (hp : p ∈ Slot.parts c args i slots) : ∃ slot ∈ slots, slot.kind = p.kind := by
  induction slots generalizing i with
  | nil => cases hp
  | cons slot slots ih =>
    rcases List.mem_cons.mp hp with rfl | hp
    · exact ⟨slot, List.mem_cons_self, rfl⟩
    · obtain ⟨other, hmem, hkind⟩ := ih hp
      exact ⟨other, List.mem_cons_of_mem _ hmem, hkind⟩

theorem kind_of_mem_itemParts {item : Kind} {i : Nat} {items : List Value} {p : Part}
    (hp : p ∈ itemParts item i items) : p.kind = item := by
  induction items generalizing i with
  | nil => cases hp
  | cons v vs ih =>
    rcases List.mem_cons.mp hp with rfl | hp
    · rfl
    · exact ih hp

theorem Part.StandsIn.step_eq {p : Part} {v : Value} (h : p.StandsIn v)
    (hp : p.kind.acceptsNull = false) : v.step? p.step = p.value := by
  rcases h with hstep | ⟨-, -, hnull⟩
  · exact hstep
  · rw [hp] at hnull
    cases hnull

namespace Kind

def ofType : Kind → Bool
  | path | type | tyParam | anonType | anonField | string | flag | int => true
  | array string | array type | array tyParam | array anonField => true
  | _ => false

variable {k : Kind} (hk : k.ofType = true)
include hk

theorem eq_flag_of_acceptsNull (hnull : k.acceptsNull = true) : k = flag := by
  unfold ofType at hk
  split at hk <;> first | contradiction | rfl

theorem ofType_fields {expected : String} {fields : List (String × Kind)}
    (hs : k.shape = .object expected fields) : ∀ field ∈ fields, field.2.ofType = true := by
  unfold ofType at hk
  split at hk <;> first | contradiction | (cases hs; simp [ofType])

theorem ofType_slots {type c : String} {slots? : String → Option (List Slot)} {slots : List Slot}
    (hs : k.shape = .enum type slots?) (hc : slots? c = some slots) :
    ∀ slot ∈ slots, slot.kind.ofType = true ∧ slot.kind.acceptsNull = false := by
  unfold ofType at hk
  split at hk <;> first | contradiction | cases hs
  unfold typeSlots? at hc
  split at hc <;> cases hc <;> simp [needed, ofType, acceptsNull]

theorem ofType_item {item : Kind} (hs : k.shape = .array item) :
    item.ofType = true ∧ item.acceptsNull = false := by
  unfold ofType at hk
  split at hk <;> first | contradiction | (cases hs; exact ⟨rfl, rfl⟩)

theorem inspect_part {v : Value} {parts : List Part} (h : k.inspect v = .ok parts) {p : Part}
    (hp : p ∈ parts) : p.kind.ofType = true ∧ v.step? p.step = p.value := by
  have hstands := standsIn h hp
  cases inspected h with
  | null | leaf => cases hp
  | object hs given =>
    obtain ⟨field, hfield, rfl⟩ := List.mem_map.mp hp
    exact ⟨ofType_fields hk hs field hfield, rfl⟩
  | enum hs hc index args =>
    obtain ⟨slot, hslot, hkind⟩ := Slot.kind_of_mem_parts hp
    obtain ⟨htype, hnull⟩ := ofType_slots hk hs hc slot hslot
    rw [hkind] at htype hnull
    exact ⟨htype, hstands.step_eq hnull⟩
  | array hs items =>
    obtain ⟨htype, hnull⟩ := ofType_item hk hs
    rw [← kind_of_mem_itemParts hp] at htype hnull
    exact ⟨htype, hstands.step_eq hnull⟩

/-! ## Standard forms of descriptors -/

theorem rebuild_leaf {check : Value → Option (String × String)} {v : Value}
    (hs : k.shape = .leaf check) (hv : check v = none) (ws : List Value) :
    k.inspect (k.rebuild v ws) = .ok [] ∧ v.narrowed.SameHead (k.rebuild v ws) := by
  unfold ofType at hk
  split at hk <;> first | contradiction | cases hs
  · cases v <;> first | exact ⟨rfl, rfl⟩ | cases hv
  · cases v <;> first | exact ⟨rfl, rfl⟩ | cases hv
  · cases v with
    | int m => exact ⟨rfl, congrArg Value.int (ofNat_eq_lowWord m).symm⟩
    | _ => cases hv

theorem inspect_rebuild {v : Value} {parts : List Part} (h : k.inspect v = .ok parts)
    {ws : List Value} (hlength : ws.length = parts.length) :
    k.inspect (k.rebuild v ws) = .ok (parts.zipWith Part.holding ws) := by
  cases inspected h with
  | null hnull =>
    rw [eq_flag_of_acceptsNull hk hnull]
    rfl
  | leaf hs hv => exact (rebuild_leaf hk hs hv ws).1
  | @object expected fields hs given =>
    have hws := Fields.map_get_zip (nodup_fields hs) (by simpa using hlength)
    have hbuild : k.rebuild (.object given) ws = .object ((fields.map Prod.fst).zip ws) := by
      simp only [rebuild, hs]
    rw [hbuild, inspect_of_ne_null k Value.noConfusion, hs, Shape.inspect, map_fieldPart given,
      hws]
  | @enum t c slots? slots hs hc index args =>
    rw [Slot.length_parts] at hlength
    have hbuild : k.rebuild (.enum t c index args) ws = standardEnum t c ws := by
      simp only [rebuild, hs]
    rw [hbuild, standardEnum, inspect_of_ne_null k Value.noConfusion, hs]
    simp only [Shape.inspect, if_true, hc]
    have hparts := Slot.parts_append (c := c) args [] (unread t c) rfl hlength
    exact congrArg Except.ok hparts
  | @array item hs items =>
    rw [length_itemParts] at hlength
    have hbuild : k.rebuild (.array items) ws = .array ws := by
      simp only [rebuild, hs]
    rw [hbuild, inspect_of_ne_null k Value.noConfusion, hs, Shape.inspect,
      itemParts_eq_zipWith item 0 hlength]

theorem sameHead_rebuild {v : Value} {parts : List Part} (h : k.inspect v = .ok parts)
    {ws : List Value} (hlength : ws.length = parts.length) :
    v.narrowed.SameHead (k.rebuild v ws) := by
  cases inspected h with
  | null hnull =>
    rw [eq_flag_of_acceptsNull hk hnull]
    rfl
  | leaf hs hv => exact (rebuild_leaf hk hs hv ws).2
  | object hs given =>
    simp only [rebuild, hs]
    trivial
  | enum hs hc index args =>
    simp only [rebuild, hs]
    exact ⟨rfl, rfl⟩
  | array hs items =>
    rw [length_itemParts] at hlength
    simp only [rebuild, hs]
    exact hlength.symm

end Kind

/-! ## The places of a descriptor and of its standard form -/

section Places

variable {k l : Kind} (hk : k.ofType = true) {v s : Value} {path : List Step}
include hk

theorem Visits.forth {u : Value} (h : Visits k v path l u) (hs : k.standard? v = some s) :
    l.ofType = true ∧ ∃ w, Visits k s path l w ∧ l.standard? u = some w := by
  induction h generalizing s with
  | here k v => exact ⟨hk, s, .here k s, hs⟩
  | @part k l v u x parts p path hparts hp hvalue _ _ ih =>
    obtain ⟨parts, ws, hparts', rfl, hws⟩ := Kind.exists_of_standard? hs
    rw [hparts] at hparts'
    cases hparts'
    have hrebuild := Kind.inspect_rebuild hk hparts hws.length_eq.symm
    obtain ⟨w, hw, hmem⟩ := Part.holding_mem hws hp
    obtain ⟨htype, -⟩ := Kind.inspect_part hk hparts hp
    obtain ⟨-, hstep⟩ := Kind.inspect_part hk hrebuild hmem
    rw [Part.standard?, hvalue] at hw
    -- What stands below the part in the value stands below its form in the standard form.
    obtain ⟨hl, y, hvisits, hy⟩ := ih htype hw
    exact ⟨hl, y, .part (p := p.holding w) hrebuild hmem rfl hstep hvisits, hy⟩

theorem Visits.back {w : Value} (h : Visits k s path l w) (hs : k.standard? v = some s) :
    l.ofType = true ∧ ∃ u, Visits k v path l u ∧ l.standard? u = some w := by
  induction h generalizing v with
  | here k s => exact ⟨hk, v, .here k v, hs⟩
  | part hparts' hp hvalue _ _ ih =>
    obtain ⟨parts, ws, hparts, rfl, hws⟩ := Kind.exists_of_standard? hs
    have hrebuild := Kind.inspect_rebuild hk hparts hws.length_eq.symm
    rw [hrebuild] at hparts'
    cases hparts'
    -- The part of the standard form is the form of some part of the value.
    obtain ⟨p, hmem, w, hw, rfl⟩ := Part.of_mem_holding hws hp
    cases hvalue
    obtain ⟨u, hu, hw⟩ := Option.bind_eq_some_iff.mp hw
    obtain ⟨htype, hstep⟩ := Kind.inspect_part hk hparts hmem
    rw [hu] at hstep
    obtain ⟨hl, x, hvisits, hx⟩ := ih htype hw
    exact ⟨hl, x, .part (p := p) hparts hmem hu hstep hvisits, hx⟩

theorem Kind.sameHead_standard {s : Value} (hs : k.standard? v = some s) :
    v.narrowed.SameHead s := by
  obtain ⟨parts, ws, hparts, rfl, hws⟩ := exists_of_standard? hs
  exact sameHead_rebuild hk hparts hws.length_eq.symm

/-- A descriptor and its standard form say the same everywhere, up to numbers of unknown types. -/
theorem Kind.agree_standard (hs : k.standard? v = some s) :
    k.Agree (fun u w => u.narrowed.SameHead w) v s where
  forth h := by
    obtain ⟨hl, w, hvisits, hw⟩ := h.forth hk hs
    exact ⟨w, hvisits, sameHead_standard hl hw⟩
  back h := by
    obtain ⟨hl, u, hvisits, hu⟩ := h.back hk hs
    exact ⟨u, hvisits, sameHead_standard hl hu⟩

theorem Kind.agree_iff_words (hs : k.standard? v = some s) :
    k.Agree Value.SameHead v s ↔
      ∀ path l m, Visits k v path l (.int m) → 0 ≤ m.toInt ∧ m.toInt < 4294967296 := by
  have hagree := agree_standard hk hs
  constructor
  · -- The integer stands in the standard form, and so do its lowest 32 bits, in the same place.
    intro hsame path l m hvisits
    obtain ⟨w, hw, hhead⟩ := hsame.forth hvisits
    obtain ⟨w', hw', hnarrow⟩ := hagree.forth hvisits
    have heq : some w = some w' := hw.follow.symm.trans hw'.follow
    cases heq
    have hint := Value.sameHead_int_iff.mp hhead
    have hlow := Value.sameHead_int_iff.mp hnarrow
    rw [← hint] at hlow
    injection hlow with hlow
    exact lowWord_eq_self_iff.mp hlow
  · intro hwords
    have hself : ∀ path l u, Visits k v path l u → u.narrowed = u := by
      intro path l u hvisits
      cases u with
      | int m => exact congrArg Value.int (lowWord_eq_self_iff.mpr (hwords path l m hvisits))
      | _ => rfl
    constructor
    · intro path l u hvisits
      obtain ⟨w, hw, hhead⟩ := hagree.forth hvisits
      rw [hself path l u hvisits] at hhead
      exact ⟨w, hw, hhead⟩
    · intro path l w hvisits
      obtain ⟨u, hu, hhead⟩ := hagree.back hvisits
      rw [hself path l u hu] at hhead
      exact ⟨u, hu, hhead⟩

end Places

/-! ## Another number in the same place -/

theorem Value.step?_setPart {v u : Value} {step : Step} (h : v.step? step = some u) (w : Value) :
    (v.setPart step w).step? step = some w := by
  unfold step? at h
  split at h
  · exact congrArg some (Fields.get_set_self ..)
  · split at h
    · rename_i hc
      obtain ⟨hi, -⟩ := List.getElem?_eq_some_iff.mp h
      simp only [setPart, step?, if_pos hc]
      exact List.getElem?_set_self hi
    · cases h
  · obtain ⟨hi, -⟩ := List.getElem?_eq_some_iff.mp h
    exact List.getElem?_set_self hi
  · cases h

theorem Kind.rebuild_setPart {k : Kind} {v : Value} {parts : List Part} {p : Part}
    (h : k.inspect v = .ok parts) (hp : p ∈ parts) (w : Value) :
    k.rebuild (v.setPart p.step w) = k.rebuild v := by
  funext ws
  cases inspected h with
  | null | leaf => cases hp
  | object hs given =>
    obtain ⟨field, -, rfl⟩ := List.mem_map.mp hp
    simp only [fieldPart, Value.setPart, rebuild, hs]
  | enum hs hc index args =>
    obtain ⟨i, hi, -⟩ := le_of_mem_parts hp
    simp only [hi, Value.setPart, if_true, rebuild, hs]
  | array hs items =>
    obtain ⟨i, hi, -⟩ := le_of_mem_itemParts hp
    simp only [hi, Value.setPart, rebuild, hs]

theorem Visits.replace {k l : Kind} {v u : Value} {path : List Step} (h : Visits k v path l u)
    (w : Value) : Visits k (v.replace path w) path l w := by
  induction h with
  | here k v => exact .here k w
  | @part k l v x u parts p path hparts hp _ hstep _ ih =>
    have hmem : { p with value := some (x.replace path w) } ∈
        parts.map (Part.set p.step (x.replace path w)) :=
      List.mem_map.mpr ⟨p, hp, Part.set_self p⟩
    have hinspect := Kind.inspect_setPart hparts hp hstep (x.replace path w)
    rw [Value.replace, hstep]
    exact .part (p := { p with value := some (x.replace path w) }) hinspect hmem rfl
      (Value.step?_setPart hstep _) ih

/-- A value with the same standard form in its place leaves the standard form of the whole as it
is. -/
theorem Visits.standard?_replace {k l : Kind} {v u : Value} {path : List Step}
    (h : Visits k v path l u) {w : Value} (hw : l.standard? w = l.standard? u) :
    k.standard? (v.replace path w) = k.standard? v := by
  induction h with
  | here k v => exact hw
  | @part k l v x u parts p path hparts hp hvalue hstep _ ih =>
    obtain ⟨ps, qs, rfl⟩ := List.append_of_mem hp
    have hinspect := Kind.inspect_setPart_append hparts hstep (x.replace path w)
    have hpart : Part.standard? { p with value := some (x.replace path w) } = p.standard? := by
      rw [Part.standard?, Part.standard?, hvalue]
      exact ih hw
    have hreplace : v.replace (p.step :: path) w = v.setPart p.step (x.replace path w) := by
      rw [Value.replace, hstep]
    rw [hreplace, Kind.standard?_eq, Kind.standard?_eq, hinspect, hparts, Kind.standardOf,
      Kind.standardOf, Kind.rebuild_setPart hparts hp, List.mapM_append, List.mapM_append,
      List.mapM_cons, List.mapM_cons, hpart]

/-! ## Numbers of unknown types -/

theorem Kind.eq_int {k : Kind} (hk : k.ofType = true) {m : Int64} {s : Value}
    (hs : k.standard? (.int m) = some s) : k = int := by
  obtain ⟨parts, ws, hparts, -, -⟩ := exists_of_standard? hs
  cases inspected hparts with
  | leaf hleaf hv =>
    unfold ofType at hk
    split at hk <;> first | contradiction | cases hleaf
    rfl

theorem Kind.standard?_int (m : Int64) : int.standard? (.int m) = some (.int (lowWord m)) := by
  rw [standard?_of_strict rfl, ← ofNat_eq_lowWord]
  rfl

theorem decodeType_eq_ok_iff (v : Value) (t : Ty) :
    v.decodeType = .ok t ↔ Kind.type.standard? v = some (Encode.type t) :=
  Kind.decode_iff (k := .type) (fun t => (typesRoundTrip _).type t (Nat.le_refl _)) v t

section Replace

variable {v : Value} {t : Ty} (h : v.decodeType = .ok t) {path : List Step} {l : Kind} {m : Int64}
  (hvisits : Visits .type v path l (.int m))
include h hvisits

theorem kind_of_decodeType : l = .int := by
  obtain ⟨hl, w, -, hw⟩ := hvisits.forth rfl ((decodeType_eq_ok_iff v t).mp h)
  exact Kind.eq_int hl hw

theorem follow_of_decodeType : (Encode.type t).follow? path = some (.int (lowWord m)) := by
  obtain ⟨hl, w, hfollow, hw⟩ := hvisits.forth rfl ((decodeType_eq_ok_iff v t).mp h)
  rw [Kind.eq_int hl hw, Kind.standard?_int] at hw
  rw [hfollow.follow, hw]

/-- No number of an unknown type is ever reported. -/
theorem exists_decodeType_replace (n : Int64) :
    ∃ t', (v.replace path (.int n)).decodeType = .ok t' := by
  obtain rfl := kind_of_decodeType h hvisits
  obtain ⟨before, after, -, hfaults, hreplace⟩ := hvisits.faults_replace
  have hnone : Kind.type.faults v = [] := by
    rw [← Kind.faults_decode, Kind.decode_type, Decoded.faults_eq_nil_iff]
    exact ⟨t, h⟩
  rw [hnone] at hfaults
  have hempty : before = [] ∧ after = [] := by
    have hnil := List.append_eq_nil_iff.mp hfaults.symm
    exact ⟨(List.append_eq_nil_iff.mp hnil.1).1, hnil.2⟩
  have hparts : Kind.int.inspect (.int n) = .ok [] := rfl
  have hint : Kind.int.faults (.int n) = [] := Kind.faults_of_ok hparts
  refine (Decoded.faults_eq_nil_iff _).mp ?_
  rw [← Kind.decode_type, Kind.faults_decode, hreplace, hempty.1, hempty.2, hint]
  rfl

theorem decodeType_replace_iff {n : Int64} {t' : Ty}
    (h' : (v.replace path (.int n)).decodeType = .ok t') :
    t' = t ↔ n.toInt % 4294967296 = m.toInt % 4294967296 := by
  rw [← lowWord_inj]
  constructor
  · rintro rfl
    have hold := follow_of_decodeType h hvisits
    have hnew := follow_of_decodeType h' (hvisits.replace (.int n))
    rw [hold] at hnew
    exact (Value.int.inj (Option.some.inj hnew)).symm
  · intro hlow
    obtain rfl := kind_of_decodeType h hvisits
    have hstandard : Kind.int.standard? (.int n) = Kind.int.standard? (.int m) := by
      rw [Kind.standard?_int, Kind.standard?_int, hlow]
    have hsame := (decodeType_eq_ok_iff v t).mp h
    rw [← hvisits.standard?_replace hstandard, ← decodeType_eq_ok_iff, h'] at hsame
    cases hsame
    rfl

end Replace

/-! ## What is kept of a descriptor -/

/-- What is read of a type descriptor says what the descriptor says, at every place that is read,
but of the number of an unknown type it keeps 32 bits only. -/
theorem Value.agree_decodeType {v : Value} {t : Ty} (h : v.decodeType = .ok t) :
    Kind.type.Agree (fun u w => u.narrowed.SameHead w) v (Encode.type t) ∧
      (Kind.type.Agree SameHead v (Encode.type t) ↔
        ∀ path l m, Visits .type v path l (.int m) → 0 ≤ m.toInt ∧ m.toInt < 4294967296) ∧
      ∀ path l m n, Visits .type v path l (.int m) →
        ∃ t', (v.replace path (.int n)).decodeType = .ok t' ∧
          (t' = t ↔ n.toInt % 4294967296 = m.toInt % 4294967296) := by
  have hstandard := (decodeType_eq_ok_iff v t).mp h
  refine ⟨Kind.agree_standard rfl hstandard, Kind.agree_iff_words rfl hstandard, ?_⟩
  intro path l m n hvisits
  obtain ⟨t', h'⟩ := exists_decodeType_replace h hvisits n
  exact ⟨t', h', decodeType_replace_iff h hvisits h'⟩

/-- A function from an unknown type to a map whose only argument is an unknown type. No constructor
has its own number, `opt` is missing, and the number of the second unknown type is too large. -/
def callback : Value :=
  .enum "Type" "TFun" 0 [
    .array [.object [("name", .string "key"), ("doc", .null),
      ("t", .enum "Type" "TMono" 1 [.int 7, .null])]],
    .enum "Type" "TInst" 1 [.object [("name", .string "Map"), ("pack", .array [.string "haxe"])],
      .array [.enum "Type" "TMono" 2 [.int 4294967299]]]]

theorem Value.agree_decodeType_callback :
    let t := Ty.func [⟨"key", false, .mono 7⟩] (.inst ⟨["haxe"], "Map"⟩ [.mono 3])
    callback.decodeType = .ok t ∧
      Kind.type.Agree (fun u w => u.narrowed.SameHead w) callback (Encode.type t) ∧
      ¬ Kind.type.Agree SameHead callback (Encode.type t) := by
  have hdecode : callback.decodeType =
      .ok (.func [⟨"key", false, .mono 7⟩] (.inst ⟨["haxe"], "Map"⟩ [.mono 3])) := rfl
  obtain ⟨hagree, hwords, -⟩ := agree_decodeType hdecode
  refine ⟨hdecode, hagree, fun hsame => ?_⟩
  have hnumber : Visits .type (.enum "Type" "TMono" 2 [.int 4294967299]) [.arg "TMono" 0] .int
      (.int 4294967299) :=
    .part (p := ⟨_, .int, some _⟩) rfl (.head _) rfl rfl (.here ..)
  have hvisits : Visits .type callback
      [.arg "TFun" 1, .arg "TInst" 1, .item 0, .arg "TMono" 0] .int (.int 4294967299) :=
    .part (p := ⟨_, .type, some _⟩) rfl (.tail _ (.head _)) rfl rfl <|
      .part (p := ⟨_, .array .type, some _⟩) rfl (.tail _ (.head _)) rfl rfl <|
      .part (p := ⟨_, .type, some _⟩) rfl (.head _) rfl rfl hnumber
  have hlarge := (hwords.mp hsame _ _ _ hvisits).2
  exact absurd hlarge (by decide)

/-- Two descriptors differ in the number of the unknown type, which is not a valid one in the
second of them, and both are read as the same type. -/
theorem Value.decodeType_of_wide_number :
    let v := Value.enum "Type" "TMono" 0 [.int 0]
    let w := Value.enum "Type" "TMono" 0 [.int 4294967296]
    v.decodeType = .ok (.mono 0) ∧ w.decodeType = .ok (.mono 0) :=
  ⟨rfl, rfl⟩

end HaxeMacro
