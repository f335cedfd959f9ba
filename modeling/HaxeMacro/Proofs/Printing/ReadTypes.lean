import HaxeMacro.Proofs.Printing.Types

/-! # The types that are read

What the parser of types answers with is a type that the printer can write down.
-/

namespace HaxeMacro

open Parser Token Grammar

section

variable {src : Source} {n : Nat}
  (hatom : ∀ s t rest, s.length < n → atom src s = .done t rest → t.Written ∧ t.IsAtom)
include hatom

theorem written_arrows {s rest : List Char} {t : ComplexType} (hs : s.length < n)
    (h : arrows (atom src) s = .done t rest) : t.Written := by
  obtain ⟨first, s₁, hfirst, h⟩ := bind_eq_done h
  obtain ⟨others, s₂, hothers, h⟩ := bind_eq_done h
  cases h
  have hall : sepBy1 (atom src) (symbol "->") s = .done (first :: others) rest := by
    rw [sepBy1, bind_of_done hfirst, bind_of_done hothers]
    rfl
  have hread := sepBy1_eq_done (n := n) (Q := fun _ t _ => t.Written ∧ t.IsAtom)
    (fun s t r hs h => hatom s t r hs h) (eats_atom src) (eats_symbol (by decide)) hs hall
  have heach : ∀ t ∈ first :: others, t.Written ∧ t.IsAtom := by
    intro t ht
    obtain ⟨_, _, h⟩ := hread.each t ht
    exact h
  cases hlast : others.getLast? with
  | none => exact (heach first List.mem_cons_self).1
  | some ret =>
    have hret := heach ret (List.mem_cons_of_mem _ (List.mem_of_getLast? hlast))
    have hargs : ∀ t ∈ first :: others.dropLast, t.Written ∧ t.IsAtom := by
      intro t ht
      rcases List.mem_cons.mp ht with rfl | ht
      · exact heach t List.mem_cons_self
      · exact heach t (List.mem_cons_of_mem _ (List.dropLast_subset _ ht))
    exact .function (List.cons_ne_nil _ _) (fun t ht => (hargs t ht).1)
      (fun t ht => (hargs t ht).2) hret.1 hret.2

theorem written_field {s rest : List Char} {f : Field} (hs : s.length < n)
    (h : anonymousField src (arrows (atom src)) s = .done f rest) :
    f.IsAnonymous ∧ ∀ t, f.kind = .var (some t) none → t.Written := by
  obtain ⟨_, s₁, hblanks, h⟩ := bind_eq_done h
  obtain ⟨start, s₂, hhere, h⟩ := bind_eq_done h
  cases hhere
  obtain ⟨optional, s₃, hmark, h⟩ := bind_eq_done h
  obtain ⟨name, s₄, hname, h⟩ := bind_eq_done h
  obtain ⟨type, s₅, htype, h⟩ := bind_eq_done h
  obtain ⟨stop, s₆, hhere, h⟩ := bind_eq_done h
  cases hhere
  cases h
  obtain ⟨_, s₇, hcolon, htype⟩ := bind_eq_done htype
  have h₁ := eats_blanks.length hblanks
  have hquestion : Eats 1 (text "?") := eats_text "?"
  have h₃ := (hquestion.keeps _).present.length (Nat.lt_succ_self _) hmark
  have h₄ := eats_anyIdentifier.length hname
  have h₇ := (eats_symbol (by decide)).length hcolon
  have hwritten := written_arrows hatom (by omega) htype
  refine ⟨⟨isName_of_anyIdentifier hname, rfl, rfl, ⟨type, rfl⟩, ?_⟩, ?_⟩
  · cases optional with
    | true => exact Or.inr rfl
    | false => exact Or.inl rfl
  · intro t ht
    cases ht
    exact hwritten

theorem written_anonymous {s rest : List Char} {fields : List Field} (hs : s.length < n + 1)
    (h : anonymous src (arrows (atom src)) s = .done fields rest) :
    (ComplexType.anonymous fields).Written := by
  obtain ⟨_, s₁, hopen, h⟩ := bind_eq_done h
  obtain ⟨fields', s₂, hfields, h⟩ := bind_eq_done h
  obtain ⟨_, s₃, hcomma, h⟩ := bind_eq_done h
  obtain ⟨_, s₄, hclose, h⟩ := bind_eq_done h
  cases h
  have h₁ := (eats_symbol (by decide)).length hopen
  have heats : Eats 1 (anonymousField src (arrows (atom src))) := by
    rw [← complexType_eq]
    exact Keeps.eats_left fun n =>
      (keeps_anonymousField (moves_id _) (keeps_complexType (moves_id src))).mono
        (Nat.le_refl 1) (Nat.le_succ n)
  rcases sepBy_eq_done (n := n)
      (Q := fun _ f _ => f.IsAnonymous ∧ ∀ t, f.kind = .var (some t) none → t.Written)
      (fun s f r hs h => written_field hatom hs h) heats (eats_symbol (by decide)) (by omega)
      hfields with ⟨rfl, -⟩ | hread
  · refine .anonymous ?_ ?_
    · intro f hf
      cases hf
    · intro f hf
      cases hf
  · have heach : ∀ f ∈ fields, f.IsAnonymous ∧
        ∀ t, f.kind = .var (some t) none → t.Written := by
      intro f hf
      obtain ⟨_, _, h⟩ := hread.each f hf
      exact h
    exact .anonymous (fun f hf => (heach f hf).1) fun f hf => (heach f hf).2

theorem written_typeArgs {s rest : List Char} {args : List TypeArg} (hs : s.length < n)
    (h : typeArgs (arrows (atom src)) s = .done args rest) :
    ∃ types : List ComplexType, args = types.map .type ∧ ∀ t ∈ types, t.Written := by
  obtain ⟨_, s₁, hopen, h⟩ := bind_eq_done h
  obtain ⟨types, s₂, htypes, h⟩ := bind_eq_done h
  obtain ⟨_, s₃, hclose, h⟩ := bind_eq_done h
  cases h
  have h₁ := (eats_symbol (by decide)).length hopen
  have heats : Eats 1 (arrows (atom src)) := by
    rw [← complexType_eq]
    exact eats_complexType src
  have hread := sepBy1_eq_done (n := n) (Q := fun _ t _ => t.Written)
    (fun s t r hs h => written_arrows hatom hs h) heats (eats_symbol (by decide)) (by omega) htypes
  refine ⟨types, rfl, fun t ht => ?_⟩
  obtain ⟨_, _, h⟩ := hread.each t ht
  exact h

theorem written_typePath {s rest : List Char} {path : TypePath} (hs : s.length < n + 1)
    (h : typePath (arrows (atom src)) s = .done path rest) : path.Written := by
  obtain ⟨start, s₁, hhere, h⟩ := bind_eq_done h
  cases hhere
  obtain ⟨parts, s₂, hparts, h⟩ := bind_eq_done h
  have heats : Eats 1 anyIdentifier := eats_anyIdentifier
  have hpoint : Eats 1 (text ".") := Keeps.eats fun n => keeps_text n (by decide)
  have hnames := sepBy1_eq_done (n := n + 1) (Q := fun _ part _ => IsName part)
    (fun s part r _ h => isName_of_anyIdentifier h) heats hpoint hs hparts
  have hlength := (Keeps.eats_left fun n => (heats.keeps n).sepBy1 hpoint).length hparts
  have hsplit := List.take_append_drop (typeIndex parts) parts
  -- From the type on there are one or two names: the type, or its module and the type.
  have htail : ∀ name sub, parts.drop (typeIndex parts) = name :: sub.toList →
      (do
        let args ← optional (typeArgs (arrows (atom src)))
        return TypePath.mk (parts.take (typeIndex parts)) name (args.getD []) sub : Parser TypePath)
          s₂ = .done path rest → path.Written := by
    intro name sub hdrop h
    obtain ⟨args?, s₃, hargs, h⟩ := bind_eq_done h
    cases h
    rw [hdrop] at hsplit
    have hindex : (parts.take (typeIndex parts)).length = typeIndex parts := by
      have hle : typeIndex parts < parts.length := by
        have hdropped := congrArg List.length hdrop
        rw [List.length_drop, List.length_cons] at hdropped
        omega
      rw [List.length_take]
      omega
    have hpartsNames : ∀ part ∈ parts.take (typeIndex parts) ++ name :: sub.toList, IsName part := by
      rw [hsplit]
      intro part hpart
      obtain ⟨_, _, h⟩ := hnames.each part hpart
      exact h
    have hindex' : typeIndex (parts.take (typeIndex parts) ++ name :: sub.toList) =
        (parts.take (typeIndex parts)).length := by
      rw [hsplit, hindex]
    rcases optional_eq_done hargs with ⟨args, rfl, hsome⟩ | ⟨rfl, -⟩
    · obtain ⟨types, rfl, htypes⟩ := written_typeArgs hatom (by omega) hsome
      exact ComplexType.Written.path hpartsNames hindex' htypes
    · have hnone : ∀ t ∈ ([] : List ComplexType), t.Written := by
        intro t ht
        cases ht
      exact ComplexType.Written.path hpartsNames hindex' hnone
  rcases hdrop : parts.drop (typeIndex parts) with _ | ⟨name, _ | ⟨sub, _ | _⟩⟩ <;>
    simp only [hdrop] at h
  · cases h
  · exact htail name none hdrop h
  · exact htail name (some sub) hdrop h
  · cases h

end

theorem written_atom {src : Source} (n : Nat) : ∀ s t rest, s.length < n →
    atom src s = .done t rest → t.Written ∧ t.IsAtom := by
  induction n with
  | zero =>
    intro s t rest hs
    omega
  | succ n ih =>
    intro s t rest hs h
    rw [atom_eq] at h
    obtain ⟨p, hp, h⟩ := oneOf_eq_done h
    simp only [List.mem_cons, List.not_mem_nil, or_false] at hp
    rcases hp with rfl | rfl | rfl | rfl
    · obtain ⟨_, s₁, hmark, h⟩ := bind_eq_done h
      obtain ⟨inner, s₂, hinner, h⟩ := bind_eq_done h
      cases h
      have h₁ := (eats_symbol (by decide)).length hmark
      obtain ⟨hwritten, hatom⟩ := ih s₁ inner rest (by omega) hinner
      exact ⟨.optional hwritten hatom, trivial⟩
    · obtain ⟨_, s₁, hopen, h⟩ := bind_eq_done h
      obtain ⟨inner, s₂, hinner, h⟩ := bind_eq_done h
      obtain ⟨_, s₃, hclose, h⟩ := bind_eq_done h
      cases h
      have h₁ := (eats_symbol (by decide)).length hopen
      exact ⟨.paren (written_arrows ih (by omega) hinner), trivial⟩
    · obtain ⟨fields, s₁, hfields, h⟩ := bind_eq_done h
      cases h
      exact ⟨written_anonymous ih hs hfields, trivial⟩
    · obtain ⟨path, s₁, hpath, h⟩ := bind_eq_done h
      cases h
      exact ⟨written_typePath ih hs hpath, trivial⟩

/-- The type that a text is read as can be written down. -/
theorem written_of_complexType {src : Source} {s rest : List Char} {t : ComplexType}
    (h : complexType src s = .done t rest) : t.Written := by
  rw [complexType_eq] at h
  exact written_arrows (written_atom (s.length + 1)) (Nat.lt_succ_self _) h

/-- So can the path of a type. -/
theorem written_of_typePath {src : Source} {s rest : List Char} {path : TypePath}
    (h : typePath (complexType src) s = .done path rest) : path.Written := by
  rw [complexType_eq] at h
  exact written_typePath (written_atom s.length) (Nat.lt_succ_self _) h

end HaxeMacro
