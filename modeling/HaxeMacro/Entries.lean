/-! # Entries

Keys with their values, in the order in which the keys were first set.
-/

namespace HaxeMacro

/-- A function on lists that goes item by item. -/
theorem eq_map_of_cons {α β : Type} {onAll : List α → List β} {onOne : α → β}
    (hnil : onAll [] = []) (hcons : ∀ a as, onAll (a :: as) = onOne a :: onAll as)
    (as : List α) : onAll as = as.map onOne := by
  induction as with
  | nil => exact hnil
  | cons a as ih => rw [hcons, ih, List.map_cons]

/-- A property of lists that holds item by item. -/
theorem forall_iff_of_cons {α : Type} {onAll : List α → Prop} {onOne : α → Prop}
    (hnil : onAll [] ↔ True) (hcons : ∀ a as, onAll (a :: as) ↔ onOne a ∧ onAll as)
    (as : List α) : onAll as ↔ ∀ a ∈ as, onOne a := by
  induction as with
  | nil => simp [hnil]
  | cons a as ih => rw [hcons, ih, List.forall_mem_cons]

abbrev Entries (κ α : Type) := List (κ × α)

namespace Entries

variable {κ α : Type} [DecidableEq κ]

def get? (entries : Entries κ α) (key : κ) : Option α :=
  match entries with
  | [] => none
  | (k, a) :: rest => if k = key then some a else get? rest key

def has (entries : Entries κ α) (key : κ) : Bool := (get? entries key).isSome

/-- Sets a key: a known one keeps its place, a new one comes last. -/
def set (entries : Entries κ α) (key : κ) (value : α) : Entries κ α :=
  match entries with
  | [] => [(key, value)]
  | (k, a) :: rest => if k = key then (k, value) :: rest else (k, a) :: set rest key value

/-- The entries that a list of settings leaves: the last value of a key, at its first place. -/
def ofList (settings : List (κ × α)) : Entries κ α :=
  settings.foldl (fun entries p => set entries p.1 p.2) []

def keys (entries : Entries κ α) : List κ := entries.map (·.1)

def erase (entries : Entries κ α) (key : κ) : Entries κ α := entries.filter fun p => p.1 ≠ key

def eraseAll (entries : Entries κ α) (keys : List κ) : Entries κ α := keys.foldl erase entries

theorem get?_set_self (entries : Entries κ α) (key : κ) (value : α) :
    get? (set entries key value) key = some value := by
  induction entries with
  | nil => simp [set, get?]
  | cons p rest ih =>
    by_cases h : p.1 = key
    · simp [set, get?, h]
    · simp [set, get?, h, ih]

theorem get?_set_of_ne (entries : Entries κ α) {key other : κ} (h : key ≠ other) (value : α) :
    get? (set entries key value) other = get? entries other := by
  induction entries with
  | nil => simp [set, get?, h]
  | cons p rest ih =>
    by_cases hp : p.1 = key
    · simp [set, get?, hp, h]
    · by_cases ho : p.1 = other
      · simp [set, get?, ho, Ne.symm h]
      · simp [set, get?, hp, ho, ih]

theorem get?_set (entries : Entries κ α) (key other : κ) (value : α) :
    get? (set entries key value) other =
      if key = other then some value else get? entries other := by
  by_cases h : key = other
  · rw [if_pos h, ← h, get?_set_self]
  · rw [if_neg h, get?_set_of_ne entries h]

theorem erase_cons (p : κ × α) (rest : Entries κ α) (key : κ) :
    erase (p :: rest) key = if p.1 = key then erase rest key else p :: erase rest key := by
  by_cases h : p.1 = key <;> simp [erase, h]

theorem get?_erase (entries : Entries κ α) (key other : κ) :
    get? (erase entries key) other = if key = other then none else get? entries other := by
  induction entries with
  | nil => simp [erase, get?]
  | cons p rest ih =>
    rw [erase_cons]
    by_cases hp : p.1 = key
    · subst hp
      rw [if_pos rfl, ih]
      by_cases ho : p.1 = other <;> simp [get?, ho]
    · rw [if_neg hp]
      by_cases ho : p.1 = other
      · have hne : key ≠ other := fun heq => hp (ho.trans heq.symm)
        simp [get?, ho, hne]
      · simp [get?, ho, ih]

theorem get?_eraseAll (entries : Entries κ α) (keys : List κ) (key : κ) :
    get? (eraseAll entries keys) key = if key ∈ keys then none else get? entries key := by
  induction keys generalizing entries with
  | nil => rfl
  | cons k keys ih =>
    rw [eraseAll, List.foldl_cons, ← eraseAll, ih]
    rw [get?_erase]
    by_cases hk : k = key
    · simp [hk]
    · simp [hk, Ne.symm hk]

theorem mem_of_get? {entries : Entries κ α} {key : κ} {value : α}
    (h : get? entries key = some value) : (key, value) ∈ entries := by
  induction entries with
  | nil => cases h
  | cons p rest ih =>
    obtain ⟨k, a⟩ := p
    by_cases hk : k = key
    · simp only [get?, hk, if_true, Option.some.injEq] at h
      simp [hk, h]
    · rw [get?, if_neg hk] at h
      exact List.mem_cons_of_mem _ (ih h)

theorem get?_eq_some_iff {entries : Entries κ α} (h : (keys entries).Nodup) {key : κ} {value : α} :
    get? entries key = some value ↔ (key, value) ∈ entries := by
  refine ⟨mem_of_get?, fun hmem => ?_⟩
  induction entries with
  | nil => cases hmem
  | cons p rest ih =>
    obtain ⟨hp, hrest⟩ := List.nodup_cons.mp h
    rcases List.mem_cons.mp hmem with rfl | hmem
    · exact if_pos rfl
    · have hne : p.1 ≠ key := by
        rintro rfl
        exact hp (List.mem_map.mpr ⟨_, hmem, rfl⟩)
      rw [get?, if_neg hne]
      exact ih hrest hmem

theorem mem_set {entries : Entries κ α} {key : κ} {value : α} {p : κ × α}
    (h : p ∈ set entries key value) : p = (key, value) ∨ p ∈ entries := by
  induction entries with
  | nil => exact Or.inl (List.mem_singleton.mp h)
  | cons q rest ih =>
    obtain ⟨k, a⟩ := q
    by_cases hk : k = key
    · rw [set, if_pos hk, hk] at h
      rcases List.mem_cons.mp h with h | h
      · exact Or.inl h
      · exact Or.inr (List.mem_cons_of_mem _ h)
    · rw [set, if_neg hk] at h
      rcases List.mem_cons.mp h with h | h
      · exact Or.inr (h ▸ List.mem_cons_self)
      · exact (ih h).imp_right (List.mem_cons_of_mem _)

theorem nodup_keys_set {entries : Entries κ α} (h : (keys entries).Nodup) (key : κ) (value : α) :
    (keys (set entries key value)).Nodup := by
  induction entries with
  | nil => exact List.nodup_cons.mpr ⟨List.not_mem_nil, List.nodup_nil⟩
  | cons p rest ih =>
    obtain ⟨k, a⟩ := p
    obtain ⟨hk, hrest⟩ := List.nodup_cons.mp h
    by_cases heq : k = key
    · rw [set, if_pos heq]
      exact h
    · rw [set, if_neg heq]
      refine List.nodup_cons.mpr ⟨fun hmem => ?_, ih hrest⟩
      obtain ⟨q, hq, hqk⟩ := List.mem_map.mp hmem
      rcases mem_set hq with rfl | hq
      · exact heq hqk.symm
      · exact hk (List.mem_map.mpr ⟨q, hq, hqk⟩)

theorem nodup_keys_erase {entries : Entries κ α} (h : (keys entries).Nodup) (key : κ) :
    (keys (erase entries key)).Nodup :=
  h.sublist (List.filter_sublist.map _)

theorem nodup_keys_eraseAll {entries : Entries κ α} (h : (keys entries).Nodup) (erased : List κ) :
    (keys (eraseAll entries erased)).Nodup := by
  induction erased generalizing entries with
  | nil => exact h
  | cons key erased ih => exact ih (nodup_keys_erase h key)

end Entries

end HaxeMacro
