import HaxeMacro.Compilation.Scope
import HaxeMacro.Proofs.Dependency.PathOrder

/-! # The signature of a context

A context keeps its signature when it has computed it, and forgets it when something is defined,
unless it is locked. However it is used, the signature is that of the definitions in force, and it
depends on nothing but what these definitions are.
-/

namespace HaxeMacro

open Std

/-! ## Sorted definitions -/

namespace Signature

/-- The signature has the definitions of a map, in the order of their names. -/
structure Lists (sig : Signature) (defines : String → Option String) (stdRoot : String) : Prop where
  sorted : sig.defines.Pairwise fun a b => compareText a.1 b.1 = .lt
  mem_iff : ∀ p, p ∈ sig.defines ↔ defines p.1 = some p.2
  stdRoot_eq : sig.stdRoot = pathParts stdRoot

theorem le_iff_isLE (a b : String × String) : le a b = (compareText a.1 b.1).isLE := by
  unfold le
  cases compareText a.1 b.1 <;> rfl

theorem pairwise_le (defines : List (String × String)) :
    (defines.mergeSort le).Pairwise (le · ·) := by
  apply List.pairwise_mergeSort
  · intro a b c
    simp only [le_iff_isLE]
    exact TransCmp.isLE_trans
  · intro a b
    have hswap : compareText b.1 a.1 = (compareText a.1 b.1).swap := OrientedCmp.eq_swap
    rw [le_iff_isLE, le_iff_isLE, hswap]
    cases compareText a.1 b.1 <;> rfl

theorem lists_ofConfig {c : Config} (h : (Entries.keys c.defines).Nodup) :
    (ofConfig c).Lists (Entries.get? c.defines) c.stdRoot := by
  refine ⟨?_, ?_, rfl⟩
  · have hperm := List.mergeSort_perm c.defines le
    have hnames : ((c.defines.mergeSort le).map (·.1)).Nodup := (hperm.map _).nodup_iff.mpr h
    refine (pairwise_le c.defines).imp₂ (fun a b hle hne => ?_) (List.pairwise_map.mp hnames)
    rw [le_iff_isLE] at hle
    cases horder : compareText a.1 b.1 with
    | lt => rfl
    | eq => exact absurd (LawfulEqCmp.eq_of_compare horder) hne
    | gt => simp [horder] at hle
  · intro p
    rw [Entries.get?_eq_some_iff h]
    exact List.mem_mergeSort

variable {sig sig' : Signature} {defines defines' : String → Option String}
  {stdRoot stdRoot' : String}

theorem Lists.unique (h : sig.Lists defines stdRoot) (h' : sig'.Lists defines stdRoot')
    (hparts : pathParts stdRoot = pathParts stdRoot') : sig = sig' := by
  have hnodup {s : Signature} {root : String} (hs : s.Lists defines root) : s.defines.Nodup := by
    refine hs.sorted.imp fun {a b} hlt => ?_
    rintro rfl
    have hself : compareText a.1 a.1 = .eq := ReflCmp.compare_self
    rw [hself] at hlt
    cases hlt
  have hperm : sig.defines.Perm sig'.defines :=
    (List.perm_ext_iff_of_nodup (hnodup h) (hnodup h')).mpr fun p => by
      rw [h.mem_iff, h'.mem_iff]
  have hlist : sig.defines = sig'.defines := by
    refine hperm.eq_of_pairwise (fun a b _ _ hab hba => ?_) h.sorted h'.sorted
    have hswap : compareText a.1 b.1 = (compareText b.1 a.1).swap := OrientedCmp.eq_swap
    rw [hswap, hba] at hab
    cases hab
  have hroot := h.stdRoot_eq.trans (hparts.trans h'.stdRoot_eq.symm)
  cases sig
  cases sig'
  simp_all

theorem Lists.eq_iff (h : sig.Lists defines stdRoot) (h' : sig'.Lists defines' stdRoot') :
    sig = sig' ↔ defines = defines' ∧ pathParts stdRoot = pathParts stdRoot' := by
  constructor
  · rintro rfl
    refine ⟨funext fun name => Option.ext fun value => ?_, h.stdRoot_eq.symm.trans h'.stdRoot_eq⟩
    exact (h.mem_iff (name, value)).symm.trans (h'.mem_iff (name, value))
  · rintro ⟨rfl, hparts⟩
    exact h.unique h' hparts

end Signature

/-! ## Histories -/

namespace Scope

variable {I J : Type}

inductive Call where
  | define (name value : String)
  | sign
  | lock
  deriving DecidableEq

namespace Call

def run (s : Scope I) : Call → Scope I
  | define name value => s.define name value
  | sign => s.sign
  | lock => s.lock

/-- What a call makes of the definitions, whatever else the context keeps. -/
def update (defines : String → Option String) : Call → String → Option String
  | define name value => Function.update defines name (some value)
  | sign | lock => defines

end Call

def after (s : Scope I) (calls : List Call) : Scope I := calls.foldl Call.run s

/-- The definitions after the calls, or when the first of them locks the signature. -/
def inForce (given : Defines) (calls : List Call) : String → Option String :=
  (calls.takeWhile (· ≠ .lock)).foldl Call.update (Entries.get? given)

/-! ## The signature that is kept -/

def Fresh (s : Scope I) : Prop :=
  s.locked = false ∧ ∀ sig ∈ s.signature, sig = .ofConfig s.config

def Settled (s : Scope I) (sig : Signature) : Prop := s.locked = true ∧ s.signature = some sig

theorem Fresh.currentSignature {s : Scope I} (h : s.Fresh) :
    s.currentSignature = .ofConfig s.config := by
  unfold Scope.currentSignature
  cases hs : s.signature with
  | none => rfl
  | some sig => exact h.2 sig hs

theorem Fresh.define {s : Scope I} (h : s.Fresh) (name value : String) :
    (s.define name value).Fresh := by
  simp [Fresh, Scope.define, h.1]

theorem Fresh.sign {s : Scope I} (h : s.Fresh) : s.sign.Fresh := by
  refine ⟨h.1, fun sig hsig => ?_⟩
  rw [← Option.some.inj hsig]
  exact h.currentSignature

theorem Fresh.lock {s : Scope I} (h : s.Fresh) : s.lock.Settled (.ofConfig s.config) :=
  ⟨rfl, congrArg some h.currentSignature⟩

theorem Settled.run {s : Scope I} {sig : Signature} (h : s.Settled sig) (call : Call) :
    (call.run s).Settled sig := by
  obtain ⟨hlocked, hsig⟩ := h
  cases call <;> simp [Settled, Call.run, Scope.define, Scope.sign, Scope.lock,
    Scope.currentSignature, hlocked, hsig]

theorem Settled.after {s : Scope I} {sig : Signature} (h : s.Settled sig) (calls : List Call) :
    (s.after calls).currentSignature = sig := by
  induction calls generalizing s with
  | nil => simp [Scope.after, Scope.currentSignature, h.2]
  | cons call calls ih => exact ih (h.run call)

/-- The signature is computed from the settings as they were at the first lock, or as they are if
there was none. -/
theorem Fresh.currentSignature_after {s : Scope I} (h : s.Fresh) (calls : List Call) :
    (s.after calls).currentSignature =
      .ofConfig (s.after (calls.takeWhile (· ≠ .lock))).config := by
  induction calls generalizing s with
  | nil => exact h.currentSignature
  | cons call calls ih =>
    cases call with
    | define name value => simpa [Scope.after, Call.run] using ih (h.define name value)
    | sign => simpa [Scope.after, Call.run] using ih h.sign
    | lock => simpa [Scope.after, Call.run] using h.lock.after calls

/-! ## The definitions -/

theorem stdRoot_after (s : Scope I) (calls : List Call) :
    (s.after calls).config.stdRoot = s.config.stdRoot := by
  induction calls generalizing s with
  | nil => rfl
  | cons call calls ih => cases call <;> exact ih _

theorem nodup_keys_after {s : Scope I} (h : (Entries.keys s.config.defines).Nodup)
    (calls : List Call) : (Entries.keys (s.after calls).config.defines).Nodup := by
  induction calls generalizing s with
  | nil => exact h
  | cons call calls ih =>
    cases call with
    | define name value => exact ih (Entries.nodup_keys_set h name value)
    | sign | lock => exact ih h

theorem get?_after (s : Scope I) (calls : List Call) :
    Entries.get? (s.after calls).config.defines =
      calls.foldl Call.update (Entries.get? s.config.defines) := by
  induction calls generalizing s with
  | nil => rfl
  | cons call calls ih =>
    have hcall : Entries.get? (call.run s).config.defines =
        call.update (Entries.get? s.config.defines) := by
      cases call with
      | define name value =>
        funext other
        change Entries.get? (Entries.set s.config.defines name value) other = _
        rw [Entries.get?_set, Call.update, Function.update_apply]
        exact if_congr eq_comm rfl rfl
      | sign | lock => rfl
    rw [List.foldl_cons, ← hcall]
    exact ih _

/-- However often a new context defines, computes its signature and locks it, the signature has
exactly the definitions in force, sorted by their names. So what two contexts hash is the same
exactly if the same definitions are in force and the paths of their standard libraries have the same
parts. -/
theorem signature_of_inForce {config config' : Config}
    (hkeys : (Entries.keys config.defines).Nodup) (hkeys' : (Entries.keys config'.defines).Nodup)
    (typer : I) (typer' : J) (module module' : Path) (calls calls' : List Call) :
    ((new config typer module).after calls).currentSignature.Lists
        (inForce config.defines calls) config.stdRoot ∧
      (((new config typer module).after calls).currentSignature =
          ((new config' typer' module').after calls').currentSignature ↔
        inForce config.defines calls = inForce config'.defines calls' ∧
          Signature.pathParts config.stdRoot = Signature.pathParts config'.stdRoot) := by
  have hlists {K : Type} {c : Config} (hc : (Entries.keys c.defines).Nodup) (typer : K)
      (module : Path) (calls : List Call) :
      ((new c typer module).after calls).currentSignature.Lists (inForce c.defines calls)
        c.stdRoot := by
    have hfresh : (new c typer module).Fresh := ⟨rfl, by simp [new]⟩
    rw [hfresh.currentSignature_after, inForce]
    have h := Signature.lists_ofConfig
      (nodup_keys_after (s := new c typer module) hc (calls.takeWhile (· ≠ .lock)))
    rwa [get?_after, stdRoot_after] at h
  exact ⟨hlists hkeys typer module calls,
    (hlists hkeys typer module calls).eq_iff (hlists hkeys' typer' module' calls')⟩

/-- Definitions in another order, one of them overwritten, one made after the lock. -/
theorem signature_other_order :
    let first : List Call := [.define "a" "1", .sign, .define "b" "2", .define "a" "3", .lock,
      .define "c" "4"]
    let second : List Call := [.define "b" "2", .define "a" "3"]
    (Entries.keys Config.default.defines).Nodup ∧
      ((new .default () ⟨[], "Main"⟩).after first).currentSignature =
        ((new .default () ⟨[], "Main"⟩).after second).currentSignature := by
  intro first second
  have hkeys : (Entries.keys Config.default.defines).Nodup := by decide
  refine ⟨hkeys, (signature_of_inForce hkeys hkeys _ _ _ _ first second).2.mpr ⟨?_, rfl⟩⟩
  have hfirst : first.takeWhile (· ≠ .lock) =
    [.define "a" "1", .sign, .define "b" "2", .define "a" "3"] := by decide
  have hsecond : second.takeWhile (· ≠ .lock) = second := by decide
  funext name
  simp only [inForce, hfirst, hsecond, second, List.foldl_cons, List.foldl_nil, Call.update,
    Function.update_apply]
  split
  · rfl
  · split <;> rfl

end Scope

end HaxeMacro
