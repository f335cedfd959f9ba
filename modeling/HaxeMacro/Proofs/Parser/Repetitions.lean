import HaxeMacro.Proofs.Parser.Refusals

/-! # Repetitions

A repetition goes on as long as its part does not refuse, and what holds of every part holds of all
of them.
-/

namespace HaxeMacro

/-- Every item of the list is related to the one after it. -/
def Neighbours {β : Type} (R : β → β → Prop) : List β → Prop
  | x :: y :: ys => R x y ∧ Neighbours R (y :: ys)
  | _ => True

theorem neighbours_of_forall {β : Type} {R : β → β → Prop} (h : ∀ x y, R x y) (xs : List β) :
    Neighbours R xs := by
  induction xs with
  | nil => trivial
  | cons x xs ih =>
    cases xs with
    | nil => trivial
    | cons y ys => exact ⟨h x y, ih⟩

namespace Parser

variable {α β : Type}

section

variable {p : Parser α} {s rest : List Char} {a : α}

/-! ## Many -/

theorem manyWithin_enough (hp : Eats 1 p) (n : Nat) : ∀ m s, s.length < n → s.length < m →
    manyWithin p n s = manyWithin p m s := by
  induction n with
  | zero =>
    intro m s hn
    omega
  | succ n ih =>
    intro m s hn hm
    obtain ⟨m, rfl⟩ : ∃ m', m = m' + 1 := ⟨m - 1, by omega⟩
    unfold manyWithin
    cases hps : p s with
    | done a rest =>
      have hlength := hp.length hps
      simp only [ih m rest (by omega) (by omega)]
    | refused place => rfl
    | exhausted => rfl

theorem many_of_done {middle : List Char} {as : List α} (heats : Eats 1 p)
    (hp : p s = .done a middle) (hmany : many p middle = .done as rest) :
    many p s = .done (a :: as) rest := by
  have hlength := heats.length hp
  have henough := manyWithin_enough heats s.length (middle.length + 1) middle (by omega) (by omega)
  unfold many at *
  unfold manyWithin
  rw [hp]
  simp only [henough, hmany]

end

/-! ## Lists with separators -/

section

variable {p : Parser α} {separator : Parser β} {Q : List Char → α → List Char → Prop} {n : Nat}

def Consecutive (Q : List Char → α → List Char → Prop) (separator : Parser β) (a b : α) : Prop :=
  ∃ s r t u c, Q s a r ∧ separator r = .done c t ∧ Q t b u

/-- What is known of a list that was read: every item was read somewhere, and the last item where
nothing more follows. -/
structure ItemsRead (Q : List Char → α → List Char → Prop) (separator : Parser β) (p : Parser α)
    (items : List α) (rest : List Char) : Prop where
  each : ∀ a ∈ items, ∃ s r, Q s a r
  next : Neighbours (Consecutive Q separator) items
  last : ∃ a ∈ items.getLast?, ∃ s, Q s a rest
  done : Refuses (do let _ ← separator; p) rest

theorem sepBy1_eq_done (hp : ∀ s a r, s.length < n → p s = .done a r → Q s a r)
    (heats : Eats 1 p) (hseparator : Eats 1 separator) {s rest : List Char} {items : List α}
    (hs : s.length < n) (h : sepBy1 p separator s = .done items rest) :
    ItemsRead Q separator p items rest := by
  -- On the number of repetitions: the item before them is the first one of what was read.
  have hall : ∀ k a s₀ s bs, Q s₀ a s → s.length < n →
      manyWithin (do let _ ← separator; p) k s = .done bs rest →
      ItemsRead Q separator p (a :: bs) rest := by
    intro k
    induction k with
    | zero =>
      intro a s₀ s bs _ _ h
      cases h
    | succ k ih =>
      intro a s₀ s bs ha hs h
      unfold manyWithin at h
      split at h
      · rename_i b r hb
        split at h
        · rename_i bs r' hbs
          cases h
          obtain ⟨c, t, hc, hb⟩ := bind_eq_done hb
          have ht := hseparator.length hc
          have hr := heats.length hb
          have hQ := hp t b r (by omega) hb
          have hrest := ih b t r bs hQ (by omega) hbs
          refine ⟨?_, ⟨⟨s₀, s, t, r, c, ha, hc, hQ⟩, hrest.next⟩, ?_, hrest.done⟩
          · intro x hx
            rcases List.mem_cons.mp hx with rfl | hx
            · exact ⟨s₀, s, ha⟩
            · exact hrest.each x hx
          · rw [List.getLast?_cons_cons]
            exact hrest.last
        · cases h
        · cases h
      · rename_i place hb
        cases h
        refine ⟨?_, trivial, ⟨a, rfl, s₀, ha⟩, ⟨place, hb⟩⟩
        intro x hx
        rw [List.mem_singleton.mp hx]
        exact ⟨s₀, _, ha⟩
      · cases h
  obtain ⟨a, t, ha, h⟩ := bind_eq_done h
  obtain ⟨bs, u, hbs, h⟩ := bind_eq_done h
  cases h
  have ht := heats.length ha
  exact hall _ a s t bs (hp s a t hs ha) (by omega) hbs

theorem sepBy_eq_done (hp : ∀ s a r, s.length < n → p s = .done a r → Q s a r)
    (heats : Eats 1 p) (hseparator : Eats 1 separator) {s rest : List Char} {items : List α}
    (hs : s.length < n) (h : sepBy p separator s = .done items rest) :
    items = [] ∧ rest = s ∨ ItemsRead Q separator p items rest := by
  obtain ⟨items?, t, hitems, hresult⟩ := bind_eq_done h
  cases hresult
  rcases optional_eq_done hitems with ⟨as, rfl, has⟩ | ⟨rfl, rfl, -⟩
  · exact Or.inr (sepBy1_eq_done hp heats hseparator hs has)
  · exact Or.inl ⟨rfl, rfl⟩

end

/-! ## Growth -/

section

variable {step : α → Parser (Option α)} {a b : α} {s rest : List Char}

theorem grow_of_none (h : step a s = .done none rest) : grow step a s = .done a s := by
  simp only [grow, growWithin, h]

theorem growWithin_enough
    (hstep : ∀ a b s rest, step a s = .done (some b) rest → rest.length < s.length) (n : Nat) :
    ∀ m a s, s.length < n → s.length < m → growWithin step n a s = growWithin step m a s := by
  induction n with
  | zero =>
    intro m a s hn
    omega
  | succ n ih =>
    intro m a s hn hm
    obtain ⟨m, rfl⟩ : ∃ m', m = m' + 1 := ⟨m - 1, by omega⟩
    unfold growWithin
    cases has : step a s with
    | done b? rest =>
      cases b? with
      | some b =>
        have hlength := hstep a b s rest has
        exact ih m b rest (by omega) (by omega)
      | none => rfl
    | refused place => rfl
    | exhausted => rfl

theorem grow_of_some
    (hstep : ∀ a b s rest, step a s = .done (some b) rest → rest.length < s.length)
    (h : step a s = .done (some b) rest) : grow step a s = grow step b rest := by
  have hlength := hstep a b s rest h
  simp only [grow, growWithin, h]
  exact growWithin_enough hstep s.length (rest.length + 1) b rest (by omega) (by omega)

/-- What every step keeps holds of the result, and nothing can be added to it. -/
theorem grow_eq_done {P : α → List Char → Prop}
    (hstep : ∀ a b s rest, P a s → step a s = .done (some b) rest → P b rest) (ha : P a s)
    (h : grow step a s = .done b rest) : P b rest ∧ ∃ place, step b rest = .done none place := by
  have hall : ∀ n a s, P a s → growWithin step n a s = .done b rest →
      P b rest ∧ ∃ place, step b rest = .done none place := by
    intro n
    induction n with
    | zero =>
      intro a s _ h
      cases h
    | succ n ih =>
      intro a s ha h
      unfold growWithin at h
      split at h
      · exact ih _ _ (hstep _ _ _ _ ha (by assumption)) h
      · cases h
        exact ⟨ha, _, by assumption⟩
      · cases h
      · cases h
  exact hall _ _ _ ha h

end

end Parser

end HaxeMacro
