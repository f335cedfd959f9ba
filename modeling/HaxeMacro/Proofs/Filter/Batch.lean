import HaxeMacro.Proofs.Filter.Frame
import Mathlib.Data.List.Forall2

/-! # Filtering a batch of modules

The modules of a batch are filtered one after the other, up to the first class that fails. If none
does, all their classes have passed all filters, and other modules are as they were.
-/

namespace HaxeMacro

open FilterPipeline (contextOf flushError)

/-! ## Lists -/

section Lists

variable {α β : Type}

theorem forall₂_trans {R : α → α → Prop} (hR : ∀ {a b c}, R a b → R b c → R a c)
    {as bs cs : List α} (h : List.Forall₂ R as bs) (h' : List.Forall₂ R bs cs) :
    List.Forall₂ R as cs := by
  induction h generalizing cs with
  | nil => exact h'
  | cons hhead _ ih =>
    cases h' with
    | cons hhead' htail' => exact .cons (hR hhead hhead') (ih htail')

theorem exists_of_forall₂_right {R : α → β → Prop} {as : List α} {bs : List β}
    (h : List.Forall₂ R as bs) {b : β} (hb : b ∈ bs) : ∃ a ∈ as, R a b := by
  induction h with
  | nil => cases hb
  | cons hhead _ ih =>
    cases hb with
    | head => exact ⟨_, List.mem_cons_self, hhead⟩
    | tail _ hb =>
      obtain ⟨a, ha, hR⟩ := ih hb
      exact ⟨a, List.mem_cons_of_mem _ ha, hR⟩

theorem getElem?_of_forall₂ {R : α → β → Prop} {as : List α} {bs : List β}
    (h : List.Forall₂ R as bs) {i : Nat} {a : α} (ha : as[i]? = some a) :
    ∃ b, bs[i]? = some b ∧ R a b := by
  induction h generalizing i with
  | nil => cases ha
  | cons hhead _ ih =>
    cases i with
    | zero =>
      cases ha
      exact ⟨_, rfl, hhead⟩
    | succ i => exact ih ha

end Lists

/-! ## Classes and types -/

def ClassDef.Fails (module : Path) (c : ClassDef) (error : MacroError) : Prop :=
  ∃ d e, FilterPipeline.default.run (contextOf module c) c = (d, .error e) ∧
    error = flushError d e

theorem ClassDef.not_fails_of_filtered {module : Path} {c : ClassDef} (h : c.filtered = true)
    (error : MacroError) : ¬c.Fails module error := by
  rintro ⟨_, _, hfailed, -⟩
  obtain ⟨_, _, hrun⟩ := FilterPipeline.run_of_filtered module h
  cases hfailed.symm.trans hrun

inductive ModuleType.Passed : ModuleType → ModuleType → Prop
  | classType {c d : ClassDef} (h : c.Passed d) : Passed (.classType c) (.classType d)
  | other {t : ModuleType} (h : t.class? = none) : Passed t t

namespace ModuleType

theorem Passed.trans {a b c : ModuleType} (h : Passed a b) (h' : Passed b c) : Passed a c := by
  cases h with
  | classType h =>
    cases h' with
    | classType h' => exact .classType (h.trans h')
    | other h' => cases h'
  | other h => exact h'

theorem Passed.filtered {t : ModuleType} {c : ClassDef} (h : Passed t (.classType c)) :
    c.filtered = true := by
  cases h with
  | classType h => exact h.filtered
  | other h => cases h

end ModuleType

namespace FilterPipeline

theorem runOnTypes_cons_other (module : Path) {t : ModuleType} (h : t.class? = none)
    (ts : List ModuleType) :
    default.runOnTypes module (t :: ts) =
      (t :: (default.runOnTypes module ts).1, (default.runOnTypes module ts).2) := by
  cases t with
  | classType c => cases h
  | _ => rfl

theorem runOnTypes_cons_class (module : Path) {c d : ClassDef} {stats : FilterStats}
    (h : default.run (contextOf module c) c = (d, .ok stats)) (ts : List ModuleType) :
    default.runOnTypes module (.classType c :: ts) =
      (.classType d :: (default.runOnTypes module ts).1, (default.runOnTypes module ts).2) := by
  rw [runOnTypes, h]

/-- The types are filtered up to the first class that fails, or all classes pass. -/
theorem runOnTypes_cases (module : Path) (ts : List ModuleType) :
    (∃ ts' c error, .classType c ∈ ts ∧ c.Fails module error ∧
      default.runOnTypes module ts = (ts', .error error)) ∨
    ∃ ts', List.Forall₂ ModuleType.Passed ts ts' ∧
      (∀ c error, .classType c ∈ ts → ¬c.Fails module error) ∧
      default.runOnTypes module ts = (ts', .ok ()) := by
  induction ts with
  | nil => exact .inr ⟨[], .nil, by simp, rfl⟩
  | cons t ts ih =>
    cases hclass : t.class? with
    | none =>
      -- A type that is no class is passed over.
      rw [runOnTypes_cons_other module hclass]
      obtain ⟨ts', c, error, hc, hfails, hrun⟩ | ⟨ts', hpassed, hfit, hrun⟩ := ih
      · exact .inl ⟨t :: ts', c, error, List.mem_cons_of_mem _ hc, hfails, by rw [hrun]⟩
      · refine .inr ⟨t :: ts', .cons (.other hclass) hpassed, fun c error hc => ?_, by rw [hrun]⟩
        rcases List.mem_cons.mp hc with rfl | hc
        · cases hclass
        · exact hfit c error hc
    | some c =>
      obtain rfl : t = .classType c := by
        cases t <;> cases hclass
        rfl
      obtain ⟨d, e, hfailed⟩ | ⟨d, stats, hd, hcd⟩ := run_cases module c
      · -- The first failure ends the run.
        exact .inl ⟨.classType d :: ts, c, flushError d e, List.mem_cons_self,
          ⟨d, e, hfailed, rfl⟩, by rw [runOnTypes, hfailed]⟩
      · rw [runOnTypes_cons_class module hd]
        obtain ⟨ts', c', error, hc, hfails, hrun⟩ | ⟨ts', hpassed, hfit, hrun⟩ := ih
        · exact .inl ⟨_, c', error, List.mem_cons_of_mem _ hc, hfails, by rw [hrun]⟩
        · refine .inr ⟨_, .cons (.classType hcd) hpassed, fun c' error hc => ?_, by rw [hrun]⟩
          rcases List.mem_cons.mp hc with heq | hc
          · cases heq
            rintro ⟨_, _, hfailed, -⟩
            cases hd.symm.trans hfailed
          · exact hfit c' error hc

end FilterPipeline

/-! ## Modules -/

namespace ModuleDef

structure Passed (m m' : ModuleDef) : Prop where
  path : m'.path = m.path
  types : List.Forall₂ ModuleType.Passed m.types m'.types

def Fails (m : ModuleDef) (error : MacroError) : Prop :=
  ∃ c, .classType c ∈ m.types ∧ c.Fails m.path error

theorem Passed.trans {a b c : ModuleDef} (h : a.Passed b) (h' : b.Passed c) : a.Passed c where
  path := h'.path.trans h.path
  types := forall₂_trans .trans h.types h'.types

theorem Passed.not_fails {m m' : ModuleDef} (h : m.Passed m') (error : MacroError) :
    ¬m'.Fails error := by
  rintro ⟨c, hc, hfails⟩
  obtain ⟨t, -, ht⟩ := exists_of_forall₂_right h.types hc
  exact ClassDef.not_fails_of_filtered ht.filtered error hfails

end ModuleDef

theorem FilterPipeline.runOnModule_cases (m : ModuleDef) :
    (∃ m' error, m.Fails error ∧ default.runOnModule m = (m', .error error)) ∨
    ∃ m', m.Passed m' ∧ (∀ error, ¬m.Fails error) ∧ default.runOnModule m = (m', .ok ()) := by
  unfold runOnModule
  obtain ⟨ts', c, error, hc, hfails, hrun⟩ | ⟨ts', hpassed, hfit, hrun⟩ :=
    runOnTypes_cases m.path m.types
  · exact .inl ⟨{ m with types := ts' }, error, ⟨c, hc, hfails⟩, by rw [hrun]⟩
  · refine .inr ⟨{ m with types := ts' }, ⟨rfl, hpassed⟩, ?_, by rw [hrun]⟩
    rintro error ⟨c, hc, hfails⟩
    exact hfit c error hc hfails

/-! ## Batches -/

namespace World

variable {G : Type}

theorem module?_put_self {w : World G} {id : ModuleId} {m : ModuleDef} (h : w.module? id = some m)
    (m' : ModuleDef) : (w.put id m').module? id = some m' := by
  have hlt : id < w.modules.length := (List.getElem?_eq_some_iff.mp h).1
  simp [module?, put, hlt]

/-- The modules `ids` have passed all filters, and nothing else has changed. -/
structure Passed (ids : List ModuleId) (w w' : World G) : Prop where
  host : w'.host = w.host
  others : ∀ id, id ∉ ids ∨ w.module? id = none → w'.module? id = w.module? id
  batch : ∀ id ∈ ids, ∀ m, w.module? id = some m → ∃ m', w'.module? id = some m' ∧ m.Passed m'

def Fails (ids : List ModuleId) (w : World G) (error : MacroError) : Prop :=
  ∃ id ∈ ids, ∃ m, w.module? id = some m ∧ m.Fails error

variable {id : ModuleId} {ids : List ModuleId} {w w' : World G} {m m' : ModuleDef}

theorem Passed.cons (hm : w.module? id = some m) (hpassed : m.Passed m')
    (h : Passed ids (w.put id m') w') : Passed (id :: ids) w w' where
  host := h.host
  others x hx := by
    have hne : x ≠ id := by
      rintro rfl
      simp [hm] at hx
    have hx' : x ∉ ids ∨ (w.put id m').module? x = none := by
      rw [module?_put_of_ne w hne.symm]
      exact hx.imp_left fun hx hmem => hx (List.mem_cons_of_mem _ hmem)
    rw [h.others x hx', module?_put_of_ne w hne.symm]
  batch x hx mx hmx := by
    by_cases hxid : x = id
    · subst hxid
      cases hm.symm.trans hmx
      have hput := module?_put_self hm m'
      by_cases hagain : x ∈ ids
      · obtain ⟨m'', hm'', hpassed'⟩ := h.batch x hagain m' hput
        exact ⟨m'', hm'', hpassed.trans hpassed'⟩
      · exact ⟨m', (h.others x (.inl hagain)).trans hput, hpassed⟩
    · have hmem := (List.mem_cons.mp hx).resolve_left hxid
      rw [← module?_put_of_ne w (Ne.symm hxid) m'] at hmx
      exact h.batch x hmem mx hmx

/-- A module that has passed all filters does not fail later in the batch. -/
theorem fails_cons_iff (hm : w.module? id = some m) (hpassed : m.Passed m') (error : MacroError) :
    Fails (id :: ids) w error ↔ m.Fails error ∨ Fails ids (w.put id m') error := by
  constructor
  · rintro ⟨x, hx, mx, hmx, hfails⟩
    by_cases hxid : x = id
    · subst hxid
      cases hm.symm.trans hmx
      exact .inl hfails
    · rw [← module?_put_of_ne w (Ne.symm hxid) m'] at hmx
      exact .inr ⟨x, (List.mem_cons.mp hx).resolve_left hxid, mx, hmx, hfails⟩
  · rintro (hfails | ⟨x, hx, mx, hmx, hfails⟩)
    · exact ⟨id, List.mem_cons_self, m, hm, hfails⟩
    · by_cases hxid : x = id
      · subst hxid
        cases (module?_put_self hm m').symm.trans hmx
        exact absurd hfails (hpassed.not_fails error)
      · rw [module?_put_of_ne w (Ne.symm hxid)] at hmx
        exact ⟨x, List.mem_cons_of_mem _ hx, mx, hmx, hfails⟩

end World

/-- The modules are filtered up to the first class that fails, or all classes pass. -/
theorem FilterPipeline.runOnModules_cases {G : Type} (ids : List ModuleId) (w : World G) :
    (∃ w' error, World.Fails ids w error ∧ default.runOnModules ids w = (w', .error error)) ∨
    ∃ w', World.Passed ids w w' ∧ (∀ error, ¬World.Fails ids w error) ∧
      default.runOnModules ids w = (w', .ok ()) := by
  induction ids generalizing w with
  | nil => exact .inr ⟨w, ⟨rfl, fun _ _ => rfl, by simp⟩, by simp [World.Fails], rfl⟩
  | cons id ids ih =>
    cases hm : w.module? id with
    | none =>
      -- A number that no module has is passed over.
      have hskip : default.runOnModules (id :: ids) w = default.runOnModules ids w := by
        rw [runOnModules, hm]
      rw [hskip]
      obtain ⟨w', error, hfails, hrun⟩ | ⟨w', hpassed, hfit, hrun⟩ := ih w
      · obtain ⟨x, hx, hfails⟩ := hfails
        exact .inl ⟨w', error, ⟨x, List.mem_cons_of_mem _ hx, hfails⟩, hrun⟩
      · refine .inr ⟨w', ⟨hpassed.host, fun x hx => hpassed.others x ?_, fun x hx m hmx => ?_⟩,
          ?_, hrun⟩
        · exact hx.imp_left fun hx hmem => hx (List.mem_cons_of_mem _ hmem)
        · rcases List.mem_cons.mp hx with rfl | hx
          · cases hm.symm.trans hmx
          · exact hpassed.batch x hx m hmx
        · rintro error ⟨x, hx, m, hmx, hfails⟩
          rcases List.mem_cons.mp hx with rfl | hx
          · cases hm.symm.trans hmx
          · exact hfit error ⟨x, hx, m, hmx, hfails⟩
    | some m =>
      obtain ⟨m', error, hfails, hrun⟩ | ⟨m', hpassed, hfit, hrun⟩ := runOnModule_cases m
      · exact .inl ⟨w.put id m', error, ⟨id, List.mem_cons_self, m, hm, hfails⟩, by
          rw [runOnModules, hm]
          simp only [hrun]⟩
      · have hnext : default.runOnModules (id :: ids) w =
            default.runOnModules ids (w.put id m') := by
          rw [runOnModules, hm]
          simp only [hrun]
        rw [hnext]
        -- The module may come again in the batch, and does not fail then.
        obtain ⟨w', error, hfails, hrun'⟩ | ⟨w', hpassed', hfit', hrun'⟩ := ih (w.put id m')
        · exact .inl ⟨w', error, (World.fails_cons_iff hm hpassed error).mpr (.inr hfails), hrun'⟩
        · refine .inr ⟨w', .cons hm hpassed hpassed', fun error hfails => ?_, hrun'⟩
          rcases (World.fails_cons_iff hm hpassed error).mp hfails with h | h
          · exact hfit error h
          · exact hfit' error h

/-- Filtering changes modules and nothing else, whether it fails or not. -/
theorem FilterPipeline.host_runOnModules {G : Type} (ids : List ModuleId) (w : World G) :
    (default.runOnModules ids w).1.host = w.host := by
  induction ids generalizing w with
  | nil => rfl
  | cons id ids ih =>
    rw [runOnModules]
    split
    · exact ih w
    · split
      · rfl
      · exact ih _

end HaxeMacro
