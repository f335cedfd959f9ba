import HaxeMacro.Parser.Reply

/-! # Parsers that keep step

Two parsers keep step if they read the same texts, and the second gives what the first one gives,
seen through a function. Both then leave an end of what they read, and never run out of steps.
-/

namespace HaxeMacro

variable {α β γ δ : Type}

namespace Reply

/-- The same answer with another value. -/
def map (f : α → β) : Reply α → Reply β
  | .done a rest => .done (f a) rest
  | .refused place => .refused place
  | .exhausted => .exhausted

/-- An answer to the text `s` that reads at least `k` of its characters, or refuses in it. -/
def Answers (k : Nat) (s : List Char) : Reply α → Prop
  | .done _ rest => rest <:+ s ∧ rest.length + k ≤ s.length
  | .refused place => place <:+ s
  | .exhausted => False

theorem map_id (x : Reply α) : x.map id = x := by
  cases x <;> rfl

theorem map_eq_done {f : α → β} {x : Reply α} {b : β} {rest : List Char}
    (h : x.map f = .done b rest) : ∃ a, x = .done a rest ∧ f a = b := by
  cases x with
  | done a rest' =>
    cases h
    exact ⟨a, rfl, rfl⟩
  | refused place => cases h
  | exhausted => cases h

theorem Answers.mono {k l : Nat} {s : List Char} {x : Reply α} (h : x.Answers k s) (hl : l ≤ k) :
    x.Answers l s := by
  cases x with
  | done a rest => exact ⟨h.1, by have := h.2; omega⟩
  | refused place => exact h
  | exhausted => exact h

theorem Answers.of_suffix {k l : Nat} {s t : List Char} {x : Reply α} (h : x.Answers k t)
    (ht : t <:+ s) (hl : t.length + l ≤ s.length) : x.Answers (l + k) s := by
  cases x with
  | done a rest => exact ⟨h.1.trans ht, by have := h.2; omega⟩
  | refused place => exact List.IsSuffix.trans h ht
  | exhausted => exact h

end Reply

namespace Parser

/-- On texts of fewer than `n` characters, `q` gives what `p` gives, seen through `f`; and both read
at least `k` characters where they succeed. -/
def Keeps (f : α → β) (k n : Nat) (p : Parser α) (q : Parser β) : Prop :=
  ∀ s, s.length < n → q s = (p s).map f ∧ (p s).Answers k s

/-- The parser reads at least `k` characters where it succeeds, and answers in any case. -/
def Eats (k : Nat) (p : Parser α) : Prop := ∀ s, (p s).Answers k s

theorem Eats.keeps {k : Nat} {p : Parser α} (h : Eats k p) (n : Nat) : Keeps id k n p p := by
  intro s _
  exact ⟨(Reply.map_id _).symm, h s⟩

theorem Eats.length {k : Nat} {p : Parser α} (h : Eats k p) {s rest : List Char} {a : α}
    (hp : p s = .done a rest) : rest.length + k ≤ s.length := by
  have hans := h s
  rw [hp] at hans
  exact hans.2

namespace Keeps

variable {f : α → β} {g : γ → δ} {k l n m : Nat} {p : Parser α} {q : Parser β}

theorem mono (h : Keeps f k n p q) (hl : l ≤ k) (hm : m ≤ n) : Keeps f l m p q := by
  intro s hs
  obtain ⟨heq, hans⟩ := h s (by omega)
  exact ⟨heq, hans.mono hl⟩

theorem length (h : Keeps f k n p q) {s rest : List Char} {a : α} (hs : s.length < n)
    (hp : p s = .done a rest) : rest.length + k ≤ s.length := by
  have hans := (h s hs).2
  rw [hp] at hans
  exact hans.2

theorem weaken (h : Keeps f k n p q) : Keeps f 0 n p q := h.mono (Nat.zero_le k) (Nat.le_refl n)

theorem pure {a : α} {b : β} (hab : b = f a) : Keeps f 0 n (Pure.pure a) (Pure.pure b) := by
  intro s _
  subst hab
  exact ⟨rfl, List.suffix_refl s, Nat.le_refl _⟩

theorem bind {c : α → Parser γ} {d : β → Parser δ} (hp : Keeps f k n p q)
    (hc : ∀ a, Keeps g l (n - k) (c a) (d (f a))) : Keeps g (k + l) n (p >>= c) (q >>= d) := by
  intro s hs
  obtain ⟨heq, hans⟩ := hp s hs
  rw [bind_apply, bind_apply, heq]
  cases hps : p s with
  | done a rest =>
    rw [hps] at hans
    obtain ⟨hsuffix, hlength⟩ := hans
    obtain ⟨heq', hans'⟩ := hc a rest (by omega)
    exact ⟨heq', hans'.of_suffix hsuffix hlength⟩
  | refused place =>
    rw [hps] at hans
    exact ⟨rfl, hans⟩
  | exhausted =>
    rw [hps] at hans
    exact hans.elim

/-- What comes after a parser that eats is read from a shorter text. -/
theorem eat {c : α → Parser γ} {d : β → Parser δ} (hp : Keeps f 1 (n + 1) p q)
    (hc : ∀ a, Keeps g 0 n (c a) (d (f a))) : Keeps g 1 (n + 1) (p >>= c) (q >>= d) := hp.bind hc

theorem andThen {c : α → Parser γ} {d : β → Parser δ} (hp : Keeps f k n p q)
    (hc : ∀ a, Keeps g 0 n (c a) (d (f a))) : Keeps g k n (p >>= c) (q >>= d) :=
  hp.bind fun a => (hc a).mono (Nat.le_refl 0) (Nat.sub_le n k)

theorem skip {c : α → Parser γ} {d : β → Parser δ} (hp : Keeps f 0 n p q)
    (hc : ∀ a, Keeps g k n (c a) (d (f a))) : Keeps g k n (p >>= c) (q >>= d) := by
  have h := hp.bind hc
  rwa [Nat.zero_add] at h

theorem or {p' : Parser α} {q' : Parser β} (hp : Keeps f k n p q) (hp' : Keeps f k n p' q') :
    Keeps f k n (Parser.or p p') (Parser.or q q') := by
  intro s hs
  obtain ⟨heq, hans⟩ := hp s hs
  unfold Parser.or
  rw [heq]
  cases hps : p s with
  | done a rest =>
    rw [hps] at hans
    exact ⟨rfl, hans⟩
  | refused place => exact hp' s hs
  | exhausted =>
    rw [hps] at hans
    exact hans.elim

theorem optional (hp : Keeps f k n p q) :
    Keeps (Option.map f) 0 n (Parser.optional p) (Parser.optional q) := by
  intro s hs
  obtain ⟨heq, hans⟩ := hp s hs
  unfold Parser.optional
  rw [heq]
  cases hps : p s with
  | done a rest =>
    rw [hps] at hans
    exact ⟨rfl, hans.1, by have := hans.2; omega⟩
  | refused place => exact ⟨rfl, List.suffix_refl s, Nat.le_refl _⟩
  | exhausted =>
    rw [hps] at hans
    exact hans.elim

theorem present (hp : Keeps f k n p q) :
    Keeps id 0 n (Parser.present p) (Parser.present q) := by
  intro s hs
  obtain ⟨heq, hans⟩ := hp s hs
  unfold Parser.present
  rw [heq]
  cases hps : p s with
  | done a rest =>
    rw [hps] at hans
    exact ⟨rfl, hans.1, by have := hans.2; omega⟩
  | refused place => exact ⟨rfl, List.suffix_refl s, Nat.le_refl _⟩
  | exhausted =>
    rw [hps] at hans
    exact hans.elim

theorem lacks (hp : Keeps f k n p q) : Keeps id 0 n (Parser.lacks p) (Parser.lacks q) := by
  intro s hs
  obtain ⟨heq, hans⟩ := hp s hs
  unfold Parser.lacks
  rw [heq]
  cases hps : p s with
  | done a rest => exact ⟨rfl, List.suffix_refl s⟩
  | refused place => exact ⟨rfl, List.suffix_refl s, Nat.le_refl _⟩
  | exhausted =>
    rw [hps] at hans
    exact hans.elim

/-- Where something may come first, what follows it is read from a shorter text. -/
theorem afterOptional {first : Parser γ} (hfirst : Eats 1 first) {c : Option γ → Parser α}
    {d : Option γ → Parser β} (hsome : ∀ a, Keeps f 0 n (c (some a)) (d (some a)))
    (hnone : Keeps f 1 (n + 1) (c none) (d none)) :
    Keeps f 1 (n + 1) (Parser.optional first >>= c) (Parser.optional first >>= d) := by
  intro s hs
  have hans := hfirst s
  rw [bind_apply, bind_apply, Parser.optional]
  cases hps : first s with
  | done a rest =>
    rw [hps] at hans
    obtain ⟨hsuffix, hlength⟩ := hans
    obtain ⟨heq, hans'⟩ := hsome a rest (by omega)
    exact ⟨heq, hans'.of_suffix hsuffix hlength⟩
  | refused place => exact hnone s hs
  | exhausted =>
    rw [hps] at hans
    exact hans.elim

theorem here : Keeps id 0 n Parser.here Parser.here := by
  intro s _
  exact ⟨rfl, List.suffix_refl s, Nat.le_refl _⟩

theorem manyWithin (hp : Keeps f 1 n p q) (steps : Nat) :
    ∀ s, s.length < n → s.length < steps →
      Parser.manyWithin q steps s = (Parser.manyWithin p steps s).map (List.map f) ∧
        (Parser.manyWithin p steps s).Answers 0 s := by
  induction steps with
  | zero =>
    intro s _ hsteps
    omega
  | succ steps ih =>
    intro s hs hsteps
    obtain ⟨heq, hans⟩ := hp s hs
    unfold Parser.manyWithin
    rw [heq]
    cases hps : p s with
    | done a rest =>
      rw [hps] at hans
      obtain ⟨hsuffix, hlength⟩ := hans
      obtain ⟨heq', hans'⟩ := ih rest (by omega) (by omega)
      simp only [Reply.map, heq']
      cases hmany : Parser.manyWithin p steps rest with
      | done as rest' =>
        rw [hmany] at hans'
        exact ⟨rfl, hans'.1.trans hsuffix, by have := hans'.2; omega⟩
      | refused place =>
        rw [hmany] at hans'
        exact ⟨rfl, List.IsSuffix.trans hans' hsuffix⟩
      | exhausted =>
        rw [hmany] at hans'
        exact hans'.elim
    | refused place => exact ⟨rfl, List.suffix_refl s, Nat.le_refl _⟩
    | exhausted =>
      rw [hps] at hans
      exact hans.elim

theorem many (hp : Keeps f 1 n p q) : Keeps (List.map f) 0 n (Parser.many p) (Parser.many q) := by
  intro s hs
  exact hp.manyWithin (s.length + 1) s hs (Nat.lt_succ_self _)

theorem sepBy1 {sep : Parser γ} (hp : Keeps f 1 n p q) (hsep : Eats 1 sep) :
    Keeps (List.map f) 1 n (Parser.sepBy1 p sep) (Parser.sepBy1 q sep) := by
  have hother : Keeps f 1 n (do let _ ← sep; p) (do let _ ← sep; q) :=
    (hsep.keeps n).andThen fun _ => hp.weaken
  refine hp.andThen fun first => ?_
  refine hother.many.andThen fun others => ?_
  exact pure rfl

theorem sepBy {sep : Parser γ} (hp : Keeps f 1 n p q) (hsep : Eats 1 sep) :
    Keeps (List.map f) 0 n (Parser.sepBy p sep) (Parser.sepBy q sep) := by
  refine (hp.sepBy1 hsep).optional.andThen fun items => ?_
  refine pure ?_
  cases items <;> rfl

theorem growWithin {step : α → Parser (Option α)} {step' : β → Parser (Option β)}
    (hstep : ∀ a, Keeps (Option.map f) 0 n (step a) (step' (f a)))
    (heats : ∀ a b s rest, s.length < n → step a s = .done (some b) rest → rest.length < s.length)
    (steps : Nat) : ∀ a s, s.length < n → s.length < steps →
      Parser.growWithin step' steps (f a) s = (Parser.growWithin step steps a s).map f ∧
        (Parser.growWithin step steps a s).Answers 0 s := by
  induction steps with
  | zero =>
    intro a s _ hsteps
    omega
  | succ steps ih =>
    intro a s hs hsteps
    obtain ⟨heq, hans⟩ := hstep a s hs
    unfold Parser.growWithin
    rw [heq]
    cases has : step a s with
    | done b? rest =>
      rw [has] at hans
      obtain ⟨hsuffix, hlength⟩ := hans
      cases b? with
      | some b =>
        have hlt := heats a b s rest hs has
        obtain ⟨heq', hans'⟩ := ih b rest (by omega) (by omega)
        exact ⟨heq', hans'.of_suffix hsuffix hlength⟩
      | none => exact ⟨rfl, List.suffix_refl s, Nat.le_refl _⟩
    | refused place =>
      rw [has] at hans
      exact ⟨rfl, hans⟩
    | exhausted =>
      rw [has] at hans
      exact hans.elim

theorem grow {step : α → Parser (Option α)} {step' : β → Parser (Option β)}
    (hstep : ∀ a, Keeps (Option.map f) 0 n (step a) (step' (f a)))
    (heats : ∀ a b s rest, s.length < n → step a s = .done (some b) rest → rest.length < s.length)
    (a : α) : Keeps f 0 n (Parser.grow step a) (Parser.grow step' (f a)) := by
  intro s hs
  exact growWithin hstep heats (s.length + 1) a s hs (Nat.lt_succ_self _)

end Keeps

end Parser

end HaxeMacro
