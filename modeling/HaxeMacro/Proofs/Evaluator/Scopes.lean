import HaxeMacro.Proofs.Evaluator.Transitions

/-! # Scopes

Whatever is evaluated, the scopes are those there were before. The outer ones bind the names that
they bound, and the innermost one binds further names at most. So the names that a block declares
end with it, however it is left.
-/

namespace HaxeMacro

/-! ## Keys -/

namespace Entries

variable {κ α : Type} [DecidableEq κ]

theorem has_iff {entries : Entries κ α} {key : κ} :
    has entries key = true ↔ key ∈ keys entries := by
  induction entries with
  | nil => simp [has, get?, keys]
  | cons p rest ih =>
    obtain ⟨k, a⟩ := p
    change (get? rest key).isSome = true ↔ key ∈ keys rest at ih
    change (if k = key then some a else get? rest key).isSome = true ↔ key ∈ k :: keys rest
    by_cases hk : k = key
    · simp [hk]
    · rw [if_neg hk, ih, List.mem_cons]
      exact ⟨Or.inr, fun h => h.resolve_left (Ne.symm hk)⟩

theorem keys_set (entries : Entries κ α) (key : κ) (value : α) :
    keys (set entries key value) =
      if key ∈ keys entries then keys entries else keys entries ++ [key] := by
  induction entries with
  | nil => rfl
  | cons p rest ih =>
    obtain ⟨k, a⟩ := p
    change keys (if k = key then (k, value) :: rest else (k, a) :: set rest key value) =
      if key ∈ k :: keys rest then k :: keys rest else k :: (keys rest ++ [key])
    by_cases hk : k = key
    · rw [if_pos hk, if_pos (hk ▸ List.mem_cons_self)]
      rfl
    · rw [if_neg hk]
      change k :: keys (set rest key value) = _
      rw [ih]
      by_cases hmem : key ∈ keys rest
      · rw [if_pos hmem, if_pos (List.mem_cons_of_mem _ hmem)]
      · rw [if_neg hmem, if_neg fun h => (List.mem_cons.mp h).elim (Ne.symm hk) hmem]

theorem keys_prefix_set (entries : Entries κ α) (key : κ) (value : α) :
    keys entries <+: keys (set entries key value) := by
  rw [keys_set]
  split
  · exact List.prefix_refl _
  · exact List.prefix_append _ _

end Entries

/-! ## Environments -/

namespace Env

/-- The names that the scopes bind. -/
def names (env : Env) : List (List String) := env.map Entries.keys

theorem isSome_get?_iff {env : Env} {name : String} :
    (env.get? name).isSome = true ↔ ∃ scope ∈ env.names, name ∈ scope := by
  induction env with
  | nil => simp [get?, names]
  | cons scope scopes ih =>
    rw [get?, names, List.map_cons, List.exists_mem_cons_iff, ← names, ← ih, ← Entries.has_iff,
      Entries.has]
    cases Entries.get? scope name <;> simp

theorem isSome_get?_congr {env new : Env} (h : new.names = env.names) (name : String) :
    (new.get? name).isSome = (env.get? name).isSome := by
  rw [Bool.eq_iff_iff, isSome_get?_iff, isSome_get?_iff, h]

theorem names_assign? {env new : Env} {name : String} {v : Value}
    (h : assign? env name v = some new) : new.names = env.names := by
  induction env generalizing new with
  | nil => cases h
  | cons scope scopes ih =>
    unfold assign? at h
    split at h
    · rename_i hhas
      cases h
      rw [names, names, List.map_cons, List.map_cons, Entries.keys_set,
        if_pos (Entries.has_iff.mp hhas)]
    · obtain ⟨rest, hrest, rfl⟩ := Option.map_eq_some_iff.mp h
      exact congrArg (Entries.keys scope :: ·) (ih hrest)

/-- The environment `new` has the scopes of `env`: the outer ones bind the same names, and the
innermost one binds its names and perhaps more. -/
def Grows (env new : Env) : Prop :=
  ∀ scope outer, env = scope :: outer → ∃ scope' outer', new = scope' :: outer' ∧
    Entries.keys scope <+: Entries.keys scope' ∧ names outer' = names outer

namespace Grows

variable {env new : Env}

theorem of_names_eq (h : new.names = env.names) : env.Grows new := by
  rintro scope outer rfl
  obtain ⟨scope', outer', rfl, hscope, houter⟩ := List.map_eq_cons_iff.mp h
  exact ⟨scope', outer', rfl, hscope ▸ List.prefix_refl _, houter⟩

theorem refl (env : Env) : env.Grows env := of_names_eq rfl

theorem trans {a b c : Env} (h : a.Grows b) (h' : b.Grows c) : a.Grows c := by
  intro scope outer ha
  obtain ⟨scope', outer', hb, hscope, houter⟩ := h scope outer ha
  obtain ⟨scope'', outer'', hc, hscope', houter'⟩ := h' scope' outer' hb
  exact ⟨scope'', outer'', hc, hscope.trans hscope', houter'.trans houter⟩

theorem declare (env : Env) (name : String) (v : Value) : env.Grows (env.declare name v) := by
  rintro scope outer rfl
  exact ⟨_, outer, rfl, Entries.keys_prefix_set scope name v, rfl⟩

theorem names_leave (h : env.enter.Grows new) (henv : env ≠ []) : new.leave.names = env.names := by
  obtain ⟨entered, outer, rfl, -, houter⟩ := h [] env rfl
  cases outer with
  | nil => exact absurd (List.map_eq_nil_iff.mp houter.symm) henv
  | cons scope scopes => exact houter

theorem leave (h : env.enter.Grows new) : env.Grows new.leave := by
  rintro scope outer rfl
  exact of_names_eq (h.names_leave (List.cons_ne_nil _ _)) scope outer rfl

end Grows

end Env

/-! ## Evaluations -/

namespace Eval

variable {I G α : Type}

theorem transitions_grows : Transitions fun s t : EvalState I G => s.env.Grows t.env where
  refl s := .refl s.env
  trans := Env.Grows.trans
  closure _ := .refl _
  declare s := Env.Grows.declare s.env
  assign h := .of_names_eq (Env.names_assign? h)
  scope := Env.Grows.leave
  body {s _} _ _ := .refl s.env

theorem grows_eval (natives : Natives I G) (steps : Nat) (e : Expr) (s : EvalState I G) :
    s.env.Grows ((eval natives steps e).run s).2.env :=
  Leads.eval transitions_grows (fun _ _ _ s => .refl s.env) steps e s

theorem names_inScope {body : Eval I G α} (s : EvalState I G)
    (hbody : Leads (fun s t => s.env.Grows t.env) body) (henv : s.env ≠ []) :
    ((inScope body).run s).2.env.names = s.env.names :=
  (hbody { s with env := s.env.enter }).names_leave henv

/-- However an evaluation ends, there are as many scopes as before, the outer ones bind the names
that they bound, and the innermost one still binds its own. After a block all of them bind the names
that they bound before it, so that what is visible after the block was visible before. -/
theorem scopes_of_eval (natives : Natives I G) (steps : Nat) (scope : Entries String Value)
    (outer : Env) (runtime : NativeState) (session : Session I G) :
    (∀ e, ∃ scope' outer',
      ((eval natives steps e).run ⟨scope :: outer, runtime, session⟩).2.env = scope' :: outer' ∧
      Entries.keys scope <+: Entries.keys scope' ∧ Env.names outer' = Env.names outer) ∧
    ∀ items pos,
      let after :=
        ((eval natives steps ⟨.block items, pos⟩).run ⟨scope :: outer, runtime, session⟩).2.env
      after.names = Env.names (scope :: outer) ∧
      ∀ name, (after.get? name).isSome = (Env.get? (scope :: outer) name).isSome := by
  refine ⟨fun e => grows_eval natives steps e _ scope outer rfl, fun items pos => ?_⟩
  have hnames : ((eval natives steps ⟨.block items, pos⟩).run
      ⟨scope :: outer, runtime, session⟩).2.env.names = Env.names (scope :: outer) := by
    cases steps with
    | zero => rfl
    | succ steps =>
      refine names_inScope _ ?_ (List.cons_ne_nil _ _)
      exact Leads.sequence transitions_grows (grows_eval natives steps) items .null
  exact ⟨hnames, Env.isSome_get?_congr hnames⟩

end Eval

end HaxeMacro
