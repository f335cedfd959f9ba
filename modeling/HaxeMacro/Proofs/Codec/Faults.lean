import HaxeMacro.Proofs.Codec.Kind

/-! # The faults of a value

By the table of kinds, a value either is itself not what it should be, or its faults are those of
its parts, in their order. The readers note exactly these.
-/

namespace HaxeMacro

/-! ## Parts -/

/-- A part that a reader looks at, and its value if it is there. -/
structure Part where
  step : Step
  kind : Kind
  value : Option Value

def fieldPart (given : Fields) (field : String × Kind) : Part :=
  ⟨.field field.1, field.2, some (Fields.get given field.1)⟩

def Slot.parts (c : String) (args : List Value) : Nat → List Slot → List Part
  | _, [] => []
  | i, slot :: slots =>
    ⟨.arg c i, slot.kind, if slot.isNeeded then args[i]? else some (args[i]?.getD .null)⟩
      :: Slot.parts c args (i + 1) slots

def itemParts (item : Kind) : Nat → List Value → List Part
  | _, [] => []
  | i, v :: vs => ⟨.item i, item, some v⟩ :: itemParts item (i + 1) vs

/-- The parts of a value, or what is wrong with the value itself. -/
def Shape.inspect : Shape → Value → Except (String × String) (List Part)
  | .leaf check, v =>
    match check v with
    | some fault => .error fault
    | none => .ok []
  | .object _ fields, .object given => .ok (fields.map (fieldPart given))
  | .object expected _, v => .error (expected, v.describe)
  | .enum type slots?, .enum t c index args =>
    if t = type then
      match slots? c with
      | some slots => .ok (Slot.parts c args 0 slots)
      | none => .error ("a " ++ type ++ " constructor", c)
    else .error (type, (Value.enum t c index args).describe)
  | .enum type _, v => .error (type, v.describe)
  | .array item, .array items => .ok (itemParts item 0 items)
  | .array _, v => .error ("Array", v.describe)

def Kind.inspect (k : Kind) (v : Value) : Except (String × String) (List Part) :=
  if k.acceptsNull && v.isNull then .ok [] else k.shape.inspect v

/-! ## What an inspection finds -/

/-- The parts of a value of the kind, by the shape of the kind. -/
inductive Kind.Inspected (k : Kind) : Value → List Part → Prop where
  | null (hk : k.acceptsNull = true) : Inspected k .null []
  | leaf {check : Value → Option (String × String)} {v : Value} (hs : k.shape = .leaf check)
    (hv : check v = none) : Inspected k v []
  | object {expected : String} {fields : List (String × Kind)}
    (hs : k.shape = .object expected fields) (given : Fields) :
    Inspected k (.object given) (fields.map (fieldPart given))
  | enum {t c : String} {slots? : String → Option (List Slot)} {slots : List Slot}
    (hs : k.shape = .enum t slots?) (hc : slots? c = some slots) (index : Nat)
    (args : List Value) : Inspected k (.enum t c index args) (Slot.parts c args 0 slots)
  | array {item : Kind} (hs : k.shape = .array item) (items : List Value) :
    Inspected k (.array items) (itemParts item 0 items)

theorem Kind.inspected {k : Kind} {v : Value} {parts : List Part} (h : k.inspect v = .ok parts) :
    k.Inspected v parts := by
  unfold inspect at h
  split at h
  · rename_i hnull
    obtain ⟨hk, hv⟩ := Bool.and_eq_true_iff.mp hnull
    cases h
    cases v with
    | null => exact .null hk
    | _ => cases hv
  · cases hs : k.shape with
    | leaf check =>
      rw [hs, Shape.inspect] at h
      split at h <;> cases h
      rename_i hv
      exact .leaf hs hv
    | object expected fields =>
      rw [hs] at h
      cases v with
      | object given =>
        cases h
        exact .object hs given
      | _ => cases h
    | enum type slots? =>
      rw [hs] at h
      cases v with
      | enum t c index args =>
        simp only [Shape.inspect] at h
        split at h
        · rename_i ht
          subst ht
          split at h <;> cases h
          rename_i slots hc
          exact .enum hs hc index args
        · cases h
      | _ => cases h
    | array item =>
      rw [hs] at h
      cases v with
      | array items =>
        cases h
        exact .array hs items
      | _ => cases h

/-! ## Parts are nested less deep -/

theorem Slot.depth_parts_lt {type c : String} {index : Nat} {args : List Value} {i : Nat}
    {slots : List Slot} {p : Part} {v : Value} (hp : p ∈ Slot.parts c args i slots)
    (hv : p.value = some v) : v.depth < (Value.enum type c index args).depth := by
  induction slots generalizing i with
  | nil => cases hp
  | cons slot slots ih =>
    rcases List.mem_cons.mp hp with rfl | hp
    · have hcases : args[i]? = some v ∨ (args[i]? = none ∧ v = .null) := by
        cases hi : args[i]? <;> cases hn : slot.isNeeded <;> simp_all
      rcases hcases with hi | ⟨-, rfl⟩
      · exact Value.depth_arg_lt (List.mem_of_getElem? hi)
      · exact Value.depth_null_lt_enum type c index args
    · exact ih hp

theorem mem_itemParts {item : Kind} {i : Nat} {items : List Value} {p : Part}
    (hp : p ∈ itemParts item i items) : ∃ v ∈ items, p.value = some v := by
  induction items generalizing i with
  | nil => cases hp
  | cons v vs ih =>
    rcases List.mem_cons.mp hp with rfl | hp
    · exact ⟨v, List.mem_cons_self, rfl⟩
    · obtain ⟨w, hw, hvalue⟩ := ih hp
      exact ⟨w, List.mem_cons_of_mem _ hw, hvalue⟩

theorem Kind.depth_inspect_lt {k : Kind} {v w : Value} {parts : List Part} {p : Part}
    (h : k.inspect v = .ok parts) (hp : p ∈ parts) (hw : p.value = some w) : w.depth < v.depth := by
  cases inspected h with
  | null | leaf => cases hp
  | object hs given =>
    obtain ⟨field, -, rfl⟩ := List.mem_map.mp hp
    cases hw
    exact Value.depth_field_lt _ field.1
  | enum => exact Slot.depth_parts_lt hp hw
  | array =>
    obtain ⟨u, hu, hvalue⟩ := mem_itemParts hp
    rw [hvalue] at hw
    cases hw
    exact Value.depth_item_lt hu

/-! ## Faults -/

def Kind.faults (k : Kind) (v : Value) : List Mismatch :=
  match _h : k.inspect v with
  | .error (expected, found) => [⟨[], expected, found⟩]
  | .ok parts => parts.attach.flatMap fun ⟨p, _hp⟩ =>
    match _hw : p.value with
    | some w => (faults p.kind w).map (·.under p.step)
    | none => [⟨[p.step], "a value", "nothing"⟩]
termination_by v.depth
decreasing_by exact Kind.depth_inspect_lt _h _hp _hw

def Part.faults (p : Part) : List Mismatch :=
  match p.value with
  | some w => (p.kind.faults w).map (·.under p.step)
  | none => [⟨[p.step], "a value", "nothing"⟩]

namespace Kind

theorem faults_of_error {k : Kind} {v : Value} {expected found : String}
    (h : k.inspect v = .error (expected, found)) : k.faults v = [⟨[], expected, found⟩] := by
  rw [faults]
  split
  · rename_i h'
    rw [h] at h'
    cases h'
    rfl
  · rename_i h'
    rw [h] at h'
    cases h'

theorem faults_of_ok {k : Kind} {v : Value} {parts : List Part} (h : k.inspect v = .ok parts) :
    k.faults v = parts.flatMap Part.faults := by
  rw [faults]
  split
  · rename_i h'
    rw [h] at h'
    cases h'
  · rename_i h'
    rw [h] at h'
    cases h'
    have hattach : parts.attach.flatMap (fun p => p.val.faults) = parts.flatMap Part.faults := by
      rw [← List.flatMap_map]
      simp
    rw [← hattach]
    congr 1
    funext ⟨p, hp⟩
    simp only [Part.faults]
    split <;> rename_i hw <;> simp only [hw]

end Kind

end HaxeMacro
