import HaxeMacro.Proofs.Parser.Keeps

/-! # Parsers that refuse

Which alternative is read depends on which ones refuse; for that the place of the refusal does not
matter.
-/

namespace HaxeMacro.Parser

variable {α β : Type}

/-- The parser refuses the text, at whatever place. -/
def Refuses (p : Parser α) (s : List Char) : Prop := ∃ place, p s = .refused place

section

variable {p q : Parser α} {f : α → Parser β} {s rest : List Char} {a : α}

namespace Refuses

theorem bind (h : Refuses p s) : Refuses (p >>= f) s := by
  obtain ⟨place, h⟩ := h
  exact ⟨place, bind_of_refused h⟩

theorem next (hp : p s = .done a rest) (hf : Refuses (f a) rest) : Refuses (p >>= f) s := by
  obtain ⟨place, hf⟩ := hf
  exact ⟨place, (bind_of_done hp).trans hf⟩

theorem or_eq (h : Refuses p s) : or p q s = q s := by
  obtain ⟨place, h⟩ := h
  exact or_of_refused h

theorem or (hp : Refuses p s) (hq : Refuses q s) : Refuses (Parser.or p q) s := by
  obtain ⟨place, hq⟩ := hq
  exact ⟨place, hp.or_eq.trans hq⟩

theorem optional_eq (h : Refuses p s) : optional p s = .done none s := by
  obtain ⟨place, h⟩ := h
  rw [optional, h]

theorem present_eq (h : Refuses p s) : present p s = .done false s := by
  obtain ⟨place, h⟩ := h
  rw [present, h]

theorem lacks_eq (h : Refuses p s) : lacks p s = .done () s := by
  obtain ⟨place, h⟩ := h
  rw [lacks, h]

theorem many_eq (h : Refuses p s) : many p s = .done [] s := by
  obtain ⟨place, h⟩ := h
  simp only [many, manyWithin, h]

theorem not_done (h : Refuses p s) : p s ≠ .done a rest := by
  obtain ⟨place, h⟩ := h
  rw [h]
  intro heq
  cases heq

end Refuses

theorem optional_of_done (h : p s = .done a rest) : optional p s = .done (some a) rest := by
  rw [optional, h]

theorem present_of_done (h : p s = .done a rest) : present p s = .done true rest := by
  rw [present, h]

theorem refuses_lacks_of_done (h : p s = .done a rest) : Refuses (lacks p) s := by
  refine ⟨s, ?_⟩
  rw [lacks, h]

/-! ## Alternatives -/

theorem refuses_oneOf {ps : List (Parser α)} (h : ∀ p ∈ ps, Refuses p s) :
    Refuses (oneOf ps) s := by
  induction ps with
  | nil => exact ⟨s, rfl⟩
  | cons p ps ih =>
    have hp := h p List.mem_cons_self
    cases ps with
    | nil => exact hp
    | cons q ps => exact hp.or (ih fun r hr => h r (List.mem_cons_of_mem _ hr))

theorem oneOf_of_done {ps qs : List (Parser α)} (hps : ∀ q ∈ ps, Refuses q s)
    (hp : p s = .done a rest) : oneOf (ps ++ p :: qs) s = .done a rest := by
  induction ps with
  | nil =>
    cases qs with
    | nil => exact hp
    | cons q qs => exact or_of_done hp
  | cons r rs ih =>
    have hr := hps r List.mem_cons_self
    have hrest := ih fun q hq => hps q (List.mem_cons_of_mem _ hq)
    cases rs with
    | nil => exact hr.or_eq.trans hrest
    | cons t ts => exact hr.or_eq.trans hrest

/-- The alternative number `i`, where those before it refuse. -/
theorem oneOf_of_getElem {ps : List (Parser α)} (i : Nat) (hi : i < ps.length)
    (hps : ∀ (j : Nat) (hj : j < ps.length), j < i → Refuses ps[j] s)
    (hp : ps[i] s = .done a rest) : oneOf ps s = .done a rest := by
  have hbefore : ∀ q ∈ ps.take i, Refuses q s := by
    intro q hq
    obtain ⟨j, hj, rfl⟩ := List.mem_take_iff_getElem.mp hq
    exact hps j (by omega) (by omega)
  have hall : oneOf (ps.take i ++ ps[i] :: ps.drop (i + 1)) s = .done a rest :=
    oneOf_of_done hbefore hp
  rwa [List.getElem_cons_drop, List.take_append_drop] at hall

theorem oneOf_eq_done {ps : List (Parser α)} (h : oneOf ps s = .done a rest) :
    ∃ p ∈ ps, p s = .done a rest := by
  induction ps with
  | nil => cases h
  | cons p ps ih =>
    cases ps with
    | nil => exact ⟨p, List.mem_cons_self, h⟩
    | cons q ps =>
      rcases or_eq_done h with h | ⟨-, h⟩
      · exact ⟨p, List.mem_cons_self, h⟩
      · obtain ⟨r, hr, h⟩ := ih h
        exact ⟨r, List.mem_cons_of_mem _ hr, h⟩

end

end HaxeMacro.Parser
