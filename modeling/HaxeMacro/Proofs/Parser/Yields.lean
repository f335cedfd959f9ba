import HaxeMacro.Proofs.Parser.Repetitions

/-! # What parsers yield

A property of all values that a parser can give, whatever the text. One rule a combinator; no rule
asks how much is read.
-/

namespace HaxeMacro.Parser

variable {α β : Type}

/-- Every value that the parser gives has the property. -/
def Yields (P : α → Prop) (p : Parser α) : Prop := ∀ s a rest, p s = .done a rest → P a

namespace Yields

variable {P : α → Prop} {Q : β → Prop} {p q : Parser α} {f : α → Parser β}

theorem mono {P' : α → Prop} (h : Yields P p) (hP : ∀ a, P a → P' a) : Yields P' p :=
  fun s a rest hp => hP a (h s a rest hp)

theorem pure {a : α} (h : P a) : Yields P (Pure.pure a) := by
  intro s b rest heq
  cases heq
  exact h

theorem bind (hp : Yields P p) (hf : ∀ a, P a → Yields Q (f a)) : Yields Q (p >>= f) := by
  intro s b rest h
  obtain ⟨a, middle, ha, hb⟩ := bind_eq_done h
  exact hf a (hp s a middle ha) middle b rest hb

/-- What the first parser gives does not matter. -/
theorem after (hf : ∀ a, Yields Q (f a)) : Yields Q (p >>= f) := by
  intro s b rest h
  obtain ⟨a, middle, -, hb⟩ := bind_eq_done h
  exact hf a middle b rest hb

theorem or (hp : Yields P p) (hq : Yields P q) : Yields P (Parser.or p q) := by
  intro s a rest h
  rcases or_eq_done h with h | ⟨-, h⟩
  · exact hp s a rest h
  · exact hq s a rest h

theorem oneOf {ps : List (Parser α)} (h : ∀ p ∈ ps, Yields P p) : Yields P (oneOf ps) := by
  intro s a rest heq
  obtain ⟨p, hp, heq⟩ := oneOf_eq_done heq
  exact h p hp s a rest heq

theorem optional (hp : Yields P p) : Yields (fun a? => ∀ a ∈ a?, P a) (Parser.optional p) := by
  intro s a? rest h a ha
  rcases optional_eq_done h with ⟨b, rfl, hb⟩ | ⟨rfl, -⟩
  · rw [← Option.some.inj ha]
    exact hp s _ rest hb
  · cases ha

theorem many (hp : Yields P p) : Yields (fun as => ∀ a ∈ as, P a) (Parser.many p) := by
  intro s
  unfold Parser.many
  generalize s.length + 1 = steps
  induction steps generalizing s with
  | zero =>
    intro as rest h
    cases h
  | succ steps ih =>
    intro as rest h
    unfold manyWithin at h
    split at h
    · rename_i a middle ha
      split at h
      · rename_i others rest hothers
        cases h
        exact List.forall_mem_cons.mpr ⟨hp s a middle ha, ih middle others _ hothers⟩
      · cases h
      · cases h
    · cases h
      simp
    · cases h

theorem sepBy1 {separator : Parser β} (hp : Yields P p) :
    Yields (fun as => ∀ a ∈ as, P a) (Parser.sepBy1 p separator) := by
  refine hp.bind fun first hfirst => ?_
  refine (many (after fun _ => hp)).bind fun others hothers => ?_
  exact pure (List.forall_mem_cons.mpr ⟨hfirst, hothers⟩)

theorem sepBy {separator : Parser β} (hp : Yields P p) :
    Yields (fun as => ∀ a ∈ as, P a) (Parser.sepBy p separator) := by
  refine hp.sepBy1.optional.bind fun items? hitems => ?_
  cases items? with
  | none => exact pure (by simp)
  | some items => exact pure (hitems items rfl)

theorem grow {step : α → Parser (Option α)}
    (hstep : ∀ a, P a → Yields (fun b? => ∀ b ∈ b?, P b) (step a)) {a : α} (ha : P a) :
    Yields P (Parser.grow step a) := by
  intro s b rest h
  have hkeeps : ∀ a b s rest, P a → step a s = .done (some b) rest → P b :=
    fun a b s rest ha h => hstep a ha s _ rest h b rfl
  exact (grow_eq_done (P := fun a _ => P a) hkeeps ha h).1

end Yields

end HaxeMacro.Parser
