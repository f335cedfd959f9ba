/-! # Replies of parsers

A parser reads the start of a list of characters. It is done with a value and the characters that
are left, or it refuses and names the place, as the characters from there on. A recursive parser
that is given too few steps is `exhausted`; no alternative is tried after that.
-/

namespace HaxeMacro

/-- What a parser answers. -/
inductive Reply (α : Type) where
  | done (value : α) (rest : List Char)
  | refused (place : List Char)
  | exhausted

abbrev Parser (α : Type) := List Char → Reply α

namespace Parser

variable {α β : Type}

def succeed (a : α) : Parser α := fun s => .done a s

def refuse : Parser α := fun s => .refused s

/-- One parser after the other; the first refusal counts. -/
def andThen (p : Parser α) (f : α → Parser β) : Parser β := fun s =>
  match p s with
  | .done a rest => f a rest
  | .refused place => .refused place
  | .exhausted => .exhausted

instance : Monad Parser where
  pure := succeed
  bind := andThen

/-- The second parser reads from the same place if the first refuses; its refusal counts. -/
def or (p q : Parser α) : Parser α := fun s =>
  match p s with
  | .refused _ => q s
  | reply => reply

/-- The first of several parsers that does not refuse; the refusal of the last counts. -/
def oneOf : List (Parser α) → Parser α
  | [] => refuse
  | [p] => p
  | p :: q :: ps => or p (oneOf (q :: ps))

def optional (p : Parser α) : Parser (Option α) := fun s =>
  match p s with
  | .done a rest => .done (some a) rest
  | .refused _ => .done none s
  | .exhausted => .exhausted

def present (p : Parser α) : Parser Bool := fun s =>
  match p s with
  | .done _ rest => .done true rest
  | .refused _ => .done false s
  | .exhausted => .exhausted

/-- Succeeds without reading exactly where `p` refuses. -/
def lacks (p : Parser α) : Parser Unit := fun s =>
  match p s with
  | .done _ _ => .refused s
  | .refused _ => .done () s
  | .exhausted => .exhausted

def here : Parser (List Char) := fun s => .done s s

/-- Repeats `p` at most `steps` times, until it refuses. -/
def manyWithin (p : Parser α) : Nat → Parser (List α)
  | 0 => fun _ => .exhausted
  | steps + 1 => fun s =>
    match p s with
    | .done a rest =>
      match manyWithin p steps rest with
      | .done as rest => .done (a :: as) rest
      | .refused place => .refused place
      | .exhausted => .exhausted
    | .refused _ => .done [] s
    | .exhausted => .exhausted

def many (p : Parser α) : Parser (List α) := fun s => manyWithin p (s.length + 1) s

/-- One or more `p`, with `separator` between them; a separator without a `p` is not read. -/
def sepBy1 (p : Parser α) (separator : Parser β) : Parser (List α) := do
  let first ← p
  let others ← many (do let _ ← separator; p)
  return first :: others

def sepBy (p : Parser α) (separator : Parser β) : Parser (List α) := do
  return (← optional (sepBy1 p separator)).getD []

/-- Applies `step` at most `steps` times, until it gives nothing new; a refusal of `step` counts. -/
def growWithin (step : α → Parser (Option α)) : Nat → α → Parser α
  | 0, _ => fun _ => .exhausted
  | steps + 1, a => fun s =>
    match step a s with
    | .done (some b) rest => growWithin step steps b rest
    | .done none _ => .done a s
    | .refused place => .refused place
    | .exhausted => .exhausted

/-- Lets `a` grow by `step` for as long as there is something to add. -/
def grow (step : α → Parser (Option α)) (a : α) : Parser α := fun s =>
  growWithin step (s.length + 1) a s

/-! ## How the pieces unfold -/

@[simp] theorem pure_apply (a : α) (s : List Char) : (pure a : Parser α) s = .done a s := rfl

theorem here_apply (s : List Char) : here s = .done s s := rfl

theorem bind_apply (p : Parser α) (f : α → Parser β) (s : List Char) :
    (p >>= f) s = match p s with
      | .done a rest => f a rest
      | .refused place => .refused place
      | .exhausted => .exhausted := rfl

theorem bind_of_done {p : Parser α} {f : α → Parser β} {s rest : List Char} {a : α}
    (h : p s = .done a rest) : (p >>= f) s = f a rest := by
  simp [bind_apply, h]

theorem bind_of_refused {p : Parser α} {f : α → Parser β} {s place : List Char}
    (h : p s = .refused place) : (p >>= f) s = .refused place := by
  simp [bind_apply, h]

theorem or_of_refused {p q : Parser α} {s place : List Char} (h : p s = .refused place) :
    or p q s = q s := by
  simp [or, h]

theorem or_of_done {p q : Parser α} {s rest : List Char} {a : α} (h : p s = .done a rest) :
    or p q s = .done a rest := by
  simp [or, h]

/-! ## How successes come about -/

theorem bind_eq_done {p : Parser α} {f : α → Parser β} {s rest : List Char} {b : β}
    (h : (p >>= f) s = .done b rest) : ∃ a middle, p s = .done a middle ∧ f a middle = .done b rest := by
  rw [bind_apply] at h
  cases hp : p s with
  | done a middle =>
    rw [hp] at h
    exact ⟨a, middle, rfl, h⟩
  | refused place =>
    rw [hp] at h
    cases h
  | exhausted =>
    rw [hp] at h
    cases h

theorem or_eq_done {p q : Parser α} {s rest : List Char} {a : α} (h : or p q s = .done a rest) :
    p s = .done a rest ∨ (∃ place, p s = .refused place) ∧ q s = .done a rest := by
  unfold or at h
  cases hp : p s with
  | done b middle =>
    rw [hp] at h
    exact Or.inl h
  | refused place =>
    rw [hp] at h
    exact Or.inr ⟨⟨place, rfl⟩, h⟩
  | exhausted =>
    rw [hp] at h
    cases h

theorem optional_eq_done {p : Parser α} {s rest : List Char} {a? : Option α}
    (h : optional p s = .done a? rest) :
    (∃ a, a? = some a ∧ p s = .done a rest) ∨
      a? = none ∧ rest = s ∧ ∃ place, p s = .refused place := by
  unfold optional at h
  cases hp : p s with
  | done a middle =>
    rw [hp] at h
    cases h
    exact Or.inl ⟨a, rfl, rfl⟩
  | refused place =>
    rw [hp] at h
    cases h
    exact Or.inr ⟨rfl, rfl, place, rfl⟩
  | exhausted =>
    rw [hp] at h
    cases h

theorem present_eq_done {p : Parser α} {s rest : List Char} {there : Bool}
    (h : present p s = .done there rest) :
    (there = true ∧ ∃ a, p s = .done a rest) ∨
      there = false ∧ rest = s ∧ ∃ place, p s = .refused place := by
  unfold present at h
  cases hp : p s with
  | done a middle =>
    rw [hp] at h
    cases h
    exact Or.inl ⟨rfl, a, rfl⟩
  | refused place =>
    rw [hp] at h
    cases h
    exact Or.inr ⟨rfl, rfl, place, rfl⟩
  | exhausted =>
    rw [hp] at h
    cases h

end Parser

end HaxeMacro
