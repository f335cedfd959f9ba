import HaxeMacro.Fragment.Placement
import HaxeMacro.Parser.Grammar
import HaxeMacro.Proofs.Parser.Tokens

/-! # The parsers of types keep step

If the parsers of its parts keep step, a production does. It reads at least one character, so its
parts may be read by parsers that keep step on shorter texts only.
-/

namespace HaxeMacro

open Parser Token

namespace Parser.Keeps

variable {α β : Type} {f : α → β} {k n : Nat} {p : Parser α} {q : Parser β}

/-- What is read after something else, from a shorter text. -/
theorem inner (h : Keeps f k (n + 1) p q) : Keeps f 0 n p q :=
  h.mono (Nat.zero_le k) (Nat.le_succ n)

end Parser.Keeps

namespace Grammar

/-- The positions of `dst` are those of `src`, seen through `f`. -/
structure Moves (f : Position → Position) (src dst : Source) : Prop where
  span : ∀ start stop, dst.span start stop = f (src.span start stop)
  union : ∀ p q, f (p.union q) = (f p).union (f q)

section

variable {f : Position → Position} {src dst : Source} (hm : Moves f src dst) {n : Nat}



section Types

variable {type type' : Parser ComplexType} (ht : Keeps (·.relocate f) 1 n type type')
include ht

theorem keeps_typeHint : Keeps (·.relocate f) 1 (n + 1) (typeHint type) (typeHint type') :=
  (keeps_symbol _ (by decide)).eat fun _ => ht.weaken

include hm in
theorem keeps_anonymousField :
    Keeps (·.relocate f) 1 (n + 1) (anonymousField src type) (anonymousField dst type') := by
  refine (eats_blanks.keeps _).skip fun _ => ?_
  refine Keeps.here.skip fun start => ?_
  refine (keeps_text _ (by decide)).present.skip fun optional => ?_
  refine (eats_anyIdentifier.keeps _).eat fun name => ?_
  refine (keeps_typeHint ht).inner.andThen fun t => ?_
  refine Keeps.here.andThen fun stop => ?_
  refine Keeps.pure ?_
  simp only [id, hm.span]
  cases optional <;> rfl

include hm in
theorem keeps_anonymous :
    Keeps (List.map (·.relocate f)) 1 (n + 1) (anonymous src type) (anonymous dst type') := by
  refine (keeps_symbol _ (by decide)).eat fun _ => ?_
  have hfield := (keeps_anonymousField hm ht).mono (Nat.le_refl 1) (Nat.le_succ n)
  refine (hfield.sepBy (eats_symbol (by decide))).andThen fun fields => ?_
  refine (keeps_symbol n (by decide)).optional.andThen fun _ => ?_
  refine (keeps_symbol n (by decide)).weaken.andThen fun _ => ?_
  exact Keeps.pure rfl

theorem keeps_typeArgs : Keeps (List.map (·.relocate f)) 1 n (typeArgs type) (typeArgs type') := by
  refine (keeps_symbol n (by decide)).andThen fun _ => ?_
  refine (ht.sepBy1 (eats_symbol (by decide))).weaken.andThen fun args => ?_
  refine (keeps_symbol n (by decide)).weaken.andThen fun _ => ?_
  refine Keeps.pure ?_
  rw [List.map_map, List.map_map]
  rfl

theorem keeps_typePath : Keeps (·.relocate f) 1 (n + 1) (typePath type) (typePath type') := by
  intro s hs
  have hparts : Eats 1 (sepBy1 anyIdentifier (text ".")) := Keeps.eats_left fun n =>
    (eats_anyIdentifier.keeps n).sepBy1 (Keeps.eats fun n => keeps_text n (by decide))
  have hans := hparts s
  unfold typePath
  simp only [bind_apply, here]
  cases h : sepBy1 anyIdentifier (text ".") s with
  | done parts rest =>
    rw [h] at hans
    obtain ⟨hsuffix, hlength⟩ := hans
    have htail : ∀ name sub, Keeps (·.relocate f) 0 n
        (do
          let args ← optional (typeArgs type)
          return TypePath.mk (parts.take (typeIndex parts)) name (args.getD []) sub)
        (do
          let args ← optional (typeArgs type')
          return TypePath.mk (parts.take (typeIndex parts)) name (args.getD []) sub) := by
      intro name sub
      refine (keeps_typeArgs ht).optional.andThen fun args => ?_
      refine Keeps.pure ?_
      rw [TypePath.relocate, relocateTypeArgs_eq_map]
      cases args <;> rfl
    rcases hdrop : parts.drop (typeIndex parts) with _ | ⟨name, _ | ⟨sub, _ | _⟩⟩ <;>
      simp only [hdrop]
    · exact ⟨rfl, List.suffix_refl s⟩
    · obtain ⟨heq, hans'⟩ := htail name none rest (by omega)
      exact ⟨heq, hans'.of_suffix hsuffix hlength⟩
    · obtain ⟨heq, hans'⟩ := htail name (some sub) rest (by omega)
      exact ⟨heq, hans'.of_suffix hsuffix hlength⟩
    · exact ⟨rfl, List.suffix_refl s⟩
  | refused place =>
    rw [h] at hans
    exact ⟨rfl, hans⟩
  | exhausted =>
    rw [h] at hans
    exact hans.elim

theorem keeps_arrows : Keeps (·.relocate f) 1 n (arrows type) (arrows type') := by
  refine ht.andThen fun first => ?_
  have hother : Keeps (·.relocate f) 1 n (do symbol "->"; type) (do symbol "->"; type') :=
    (keeps_symbol n (by decide)).andThen fun _ => ht.weaken
  refine hother.many.andThen fun others => ?_
  refine Keeps.pure ?_
  rw [List.getLast?_map]
  cases others.getLast? with
  | none => rfl
  | some ret => simp [ComplexType.relocate, relocateTypes_eq_map]

end Types

include hm in
theorem keeps_atomOf {atom atom' : Parser ComplexType}
    (ha : Keeps (·.relocate f) 1 n atom atom') :
    Keeps (·.relocate f) 1 (n + 1) (atomOf src atom) (atomOf dst atom') := by
  have htype := keeps_arrows ha
  refine Keeps.or ?_ (Keeps.or ?_ (Keeps.or ?_ ?_))
  · refine (keeps_symbol _ (by decide)).eat fun _ => ?_
    exact ha.weaken.andThen fun t => Keeps.pure rfl
  · refine (keeps_symbol _ (by decide)).eat fun _ => ?_
    refine htype.weaken.andThen fun t => ?_
    exact (keeps_symbol n (by decide)).weaken.andThen fun _ => Keeps.pure rfl
  · refine (keeps_anonymous hm htype).andThen fun fields => ?_
    refine Keeps.pure ?_
    rw [ComplexType.relocate, relocateFields_eq_map]
  · exact (keeps_typePath htype).andThen fun path => Keeps.pure rfl

include hm in
theorem keeps_typeAtom (steps steps' : Nat) (hn : n ≤ steps) (hn' : n ≤ steps') :
    Keeps (·.relocate f) 1 n (typeAtom src steps) (typeAtom dst steps') := by
  induction n generalizing steps steps' with
  | zero =>
    intro s hs
    omega
  | succ n ih =>
    obtain ⟨m, rfl⟩ : ∃ m, steps = m + 1 := ⟨steps - 1, by omega⟩
    obtain ⟨m', rfl⟩ : ∃ m', steps' = m' + 1 := ⟨steps' - 1, by omega⟩
    exact keeps_atomOf hm (ih m m' (by omega) (by omega))

include hm in
theorem keeps_complexType : Keeps (·.relocate f) 1 n (complexType src) (complexType dst) := by
  intro s hs
  have hatom := keeps_typeAtom hm (s.length + 1) (s.length + 1) (Nat.le_refl _) (Nat.le_refl _)
  exact keeps_arrows hatom s (Nat.lt_succ_self _)

end

/-! ## Without steps -/

def atom (src : Source) : Parser ComplexType := fun s => typeAtom src (s.length + 1) s

section

variable (src : Source)

theorem moves_id : Moves id src src := ⟨fun _ _ => rfl, fun _ _ => rfl⟩

theorem relocateType_id_eq : (fun t : ComplexType => t.relocate id) = id := by
  funext t
  exact t.relocate_id

/-- More steps than needed change nothing. -/
theorem keeps_typeAtom_atom {n steps : Nat} (hsteps : n ≤ steps) :
    Keeps id 1 n (typeAtom src steps) (atom src) := by
  intro s hs
  have h := keeps_typeAtom (moves_id src) steps (s.length + 1) (by omega) (Nat.le_refl _) s
    (Nat.lt_succ_self _)
  rwa [relocateType_id_eq] at h

theorem eats_atom : Eats 1 (atom src) := fun s =>
  (keeps_typeAtom (moves_id src) (n := s.length + 1) _ _ (Nat.le_refl _) (Nat.le_refl _) s
    (Nat.lt_succ_self _)).2

theorem eats_complexType : Eats 1 (complexType src) :=
  Keeps.eats_left fun _ => keeps_complexType (moves_id src)

theorem atom_eq : atom src = atomOf src (atom src) := by
  funext s
  have hatom := keeps_typeAtom_atom src (Nat.le_refl s.length)
  rw [← relocateType_id_eq] at hatom
  have h := (keeps_atomOf (moves_id src) hatom s (Nat.lt_succ_self _)).1
  rw [relocateType_id_eq, Reply.map_id] at h
  exact h.symm

theorem complexType_eq : complexType src = arrows (atom src) := by
  funext s
  have hatom := keeps_typeAtom_atom src (Nat.le_refl (s.length + 1))
  rw [← relocateType_id_eq] at hatom
  have h := (keeps_arrows hatom s (Nat.lt_succ_self _)).1
  rw [relocateType_id_eq, Reply.map_id] at h
  exact h.symm

end

end Grammar

end HaxeMacro
