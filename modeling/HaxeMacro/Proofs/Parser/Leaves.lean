import HaxeMacro.Proofs.Parser.Repetitions
import HaxeMacro.Proofs.Parser.Tokens
import HaxeMacro.Proofs.Parser.Yields

/-! # What parsers leave

A relation between the value that a parser gives and the text that it leaves. What comes after a
token stands in a shorter text, so that such a relation is proved by induction on the length of the
text. One rule a combinator.
-/

namespace HaxeMacro.Parser

variable {α β : Type}

/-- Read from a text of fewer than `n` characters, a value and the text that is left are related. -/
def Leaves (n : Nat) (R : α → List Char → Prop) (p : Parser α) : Prop :=
  ∀ s a rest, s.length < n → p s = .done a rest → R a rest

theorem Yields.leaves {P : α → Prop} {p : Parser α} (h : Yields P p) (n : Nat) :
    Leaves n (fun a _ => P a) p := fun s a rest _ hp => h s a rest hp

theorem Eats.sepBy1 {p : Parser α} {separator : Parser β} (h : Eats 1 p)
    (hseparator : Eats 1 separator) : Eats 1 (Parser.sepBy1 p separator) :=
  Keeps.eats_left fun n => (h.keeps n).sepBy1 hseparator

theorem Eats.sepBy {p : Parser α} {separator : Parser β} (h : Eats 1 p)
    (hseparator : Eats 1 separator) : Eats 0 (Parser.sepBy p separator) :=
  Keeps.eats_left fun n => (h.keeps n).sepBy hseparator

namespace Leaves

variable {n k : Nat} {Q : α → List Char → Prop} {P : α → Prop} {R : β → List Char → Prop}
  {p q : Parser α} {f : α → Parser β}

theorem mono {Q' : α → List Char → Prop} (h : Leaves n Q p) (hQ : ∀ a rest, Q a rest → Q' a rest) :
    Leaves n Q' p := fun s a rest hs hp => hQ a rest (h s a rest hs hp)

theorem pure {a : α} (h : ∀ rest, Q a rest) : Leaves n Q (Pure.pure a) := by
  intro s b rest _ hp
  cases hp
  exact h s

/-- What is read before, whatever it is. -/
theorem skip (heats : Eats k p) (hf : ∀ a, Leaves n R (f a)) : Leaves n R (p >>= f) := by
  intro s b rest hs h
  obtain ⟨a, middle, ha, hb⟩ := bind_eq_done h
  have hmiddle := heats.length ha
  exact hf a middle b rest (by omega) hb

theorem eat (heats : Eats 1 p) (hf : ∀ a, Leaves n R (f a)) : Leaves (n + 1) R (p >>= f) := by
  intro s b rest hs h
  obtain ⟨a, middle, ha, hb⟩ := bind_eq_done h
  have hmiddle := heats.length ha
  exact hf a middle b rest (by omega) hb

/-- What is known of the first value, but not of where it ends. -/
theorem bind (hp : Leaves n (fun a _ => P a) p) (heats : Eats k p)
    (hf : ∀ a, P a → Leaves n R (f a)) : Leaves n R (p >>= f) := by
  intro s b rest hs h
  obtain ⟨a, middle, ha, hb⟩ := bind_eq_done h
  have hmiddle := heats.length ha
  exact hf a (hp s a middle hs ha) middle b rest (by omega) hb

theorem eatThen (hp : Leaves (n + 1) (fun a _ => P a) p) (heats : Eats 1 p)
    (hf : ∀ a, P a → Leaves n R (f a)) : Leaves (n + 1) R (p >>= f) := by
  intro s b rest hs h
  obtain ⟨a, middle, ha, hb⟩ := bind_eq_done h
  have hmiddle := heats.length ha
  exact hf a (hp s a middle hs ha) middle b rest (by omega) hb

theorem last {g : α → β} (hp : Leaves n Q p) (h : ∀ a rest, Q a rest → R (g a) rest) :
    Leaves n R (do return g (← p)) := by
  intro s b rest hs heq
  obtain ⟨a, middle, ha, hb⟩ := bind_eq_done heq
  cases hb
  exact h a rest (hp s a rest hs ha)

theorem or (hp : Leaves n Q p) (hq : Leaves n Q q) : Leaves n Q (Parser.or p q) := by
  intro s a rest hs h
  rcases or_eq_done h with h | ⟨-, h⟩
  · exact hp s a rest hs h
  · exact hq s a rest hs h

theorem oneOf {ps : List (Parser α)} (h : ∀ p ∈ ps, Leaves n Q p) :
    Leaves n Q (Parser.oneOf ps) := by
  intro s a rest hs heq
  obtain ⟨p, hp, heq⟩ := oneOf_eq_done heq
  exact h p hp s a rest hs heq

theorem optional (hp : Leaves n Q p) : Leaves n
    (fun a? rest => (∀ a ∈ a?, Q a rest) ∧ (a? = none → Refuses p rest)) (Parser.optional p) := by
  intro s a? rest hs h
  rcases optional_eq_done h with ⟨a, rfl, ha⟩ | ⟨rfl, rfl, place, hrefused⟩
  · refine ⟨fun b hb => ?_, fun hnone => (by cases hnone)⟩
    rw [← Option.some.inj hb]
    exact hp s a rest hs ha
  · exact ⟨fun b hb => (by cases hb), fun _ => ⟨place, hrefused⟩⟩

theorem many (hp : Leaves n (fun a _ => P a) p) (heats : Eats 1 p) :
    Leaves n (fun as _ => ∀ a ∈ as, P a) (Parser.many p) := by
  intro s
  unfold Parser.many
  generalize s.length + 1 = steps
  induction steps generalizing s with
  | zero =>
    intro as rest _ h
    cases h
  | succ steps ih =>
    intro as rest hs h
    unfold manyWithin at h
    split at h
    · rename_i a middle ha
      have hmiddle := heats.length ha
      split at h
      · rename_i others rest hothers
        cases h
        exact List.forall_mem_cons.mpr
          ⟨hp s a middle hs ha, ih middle others _ (by omega) hothers⟩
      · cases h
      · cases h
    · cases h
      simp
    · cases h

section

variable {separator : Parser β} (hp : Leaves n Q p) (heats : Eats 1 p)
  (hseparator : Eats 1 separator)
include hp heats hseparator

theorem sepBy1 : Leaves n (fun as rest => (∀ a ∈ as, ∃ r, Q a r) ∧ ∃ a ∈ as.getLast?, Q a rest)
    (Parser.sepBy1 p separator) := by
  intro s as rest hs h
  have hread := sepBy1_eq_done (Q := fun _ a r => Q a r) (fun s a r hs h => hp s a r hs h) heats
    hseparator hs h
  refine ⟨fun a ha => ?_, ?_⟩
  · obtain ⟨_, r, hr⟩ := hread.each a ha
    exact ⟨r, hr⟩
  · obtain ⟨a, ha, _, hr⟩ := hread.last
    exact ⟨a, ha, hr⟩

theorem sepBy : Leaves n (fun as _ => ∀ a ∈ as, ∃ r, Q a r) (Parser.sepBy p separator) := by
  intro s as rest hs h
  rcases sepBy_eq_done (Q := fun _ a r => Q a r) (fun s a r hs h => hp s a r hs h) heats hseparator
    hs h with ⟨rfl, -⟩ | hread
  · intro a ha
    cases ha
  · intro a ha
    obtain ⟨_, r, hr⟩ := hread.each a ha
    exact ⟨r, hr⟩

end

end Leaves

end HaxeMacro.Parser
