import HaxeMacro.Proofs.Engine.Forgetting
import HaxeMacro.Proofs.Engine.Steady

/-! # Macros that are remembered

A macro is resolved once. Until the engine has to forget it, every load of it gives what the first
one gave, for all compilations, and the type checkers are not asked for its module any more.
-/

namespace HaxeMacro

variable {ι R I G : Type}

theorem Entries.get?_filter {κ α : Type} [DecidableEq κ] {entries : Entries κ α} {key : κ}
    {value : α} {p : κ × α → Bool} (h : get? entries key = some value) (hp : p (key, value)) :
    get? (entries.filter p) key = some value := by
  induction entries with
  | nil => cases h
  | cons e rest ih =>
    obtain ⟨k, a⟩ := e
    by_cases hk : k = key
    · subst hk
      simp only [get?, if_true, Option.some.injEq] at h
      subst h
      rw [List.filter_cons_of_pos hp, get?, if_pos rfl]
    · rw [get?, if_neg hk] at h
      rw [List.filter_cons]
      split
      · rw [get?, if_neg hk]
        exact ih h
      · exact ih h

structure Reference.Binds (r : Reference) (b : Binding) : Prop where
  field : b.field = r.method
  module : b.module = r.module
  classPath : b.classPath = r.type

/-! ## What happens to the bindings -/

namespace Engine

def binding? (e : Engine R) (r : Reference) : Option Binding := Entries.get? e.cache.bindings r

structure SameBindings (e e' : Engine R) : Prop where
  bindings : e'.cache.bindings = e.cache.bindings
  invalidations : e'.stats.invalidations = e.stats.invalidations

/-- Nothing is forgotten, and what is new leads to what its reference names. -/
structure MoreBindings (e e' : Engine R) : Prop where
  known : ∀ {r b}, e.binding? r = some b → e'.binding? r = some b
  new : ∀ {p}, p ∈ e'.cache.bindings → p ∈ e.cache.bindings ∨ p.1.Binds p.2
  invalidations : e'.stats.invalidations = e.stats.invalidations

/-- The engine was invalidated by something that failed. -/
structure Lost (e : Engine R) (fault : Option Fault) (e' : Engine R) : Prop where
  failed : fault ≠ none
  invalidations : e.stats.invalidations < e'.stats.invalidations
  bindings : e'.cache.bindings = []

namespace SameBindings

theorem refl (e : Engine R) : e.SameBindings e := ⟨rfl, rfl⟩

theorem trans {a b c : Engine R} (h : a.SameBindings b) (h' : b.SameBindings c) :
    a.SameBindings c :=
  ⟨h'.bindings.trans h.bindings, h'.invalidations.trans h.invalidations⟩

theorem binding? {e e' : Engine R} (h : e.SameBindings e') (r : Reference) :
    e'.binding? r = e.binding? r := by
  unfold Engine.binding?
  rw [h.bindings]

theorem more {e e' : Engine R} (h : e.SameBindings e') : e.MoreBindings e' where
  known hb := (h.binding? _).trans hb
  new hp := .inl (h.bindings ▸ hp)
  invalidations := h.invalidations

end SameBindings

theorem MoreBindings.trans {a b c : Engine R} (h : a.MoreBindings b) (h' : b.MoreBindings c) :
    a.MoreBindings c where
  known hknown := h'.known (h.known hknown)
  new hp := (h'.new hp).elim h.new .inr
  invalidations := h'.invalidations.trans h.invalidations

/-- The engine is invalidated, or `step` relates it to what it was. -/
def OrLost (step : Engine R → Engine R → Prop) (s : EngineState R I G) (fault : Option Fault)
    (s' : EngineState R I G) : Prop :=
  step s.engine s'.engine ∨ s.engine.Lost fault s'.engine

theorem OrLost.of_none {step : Engine R → Engine R → Prop} {s s' : EngineState R I G}
    (h : OrLost step s none s') : step s.engine s'.engine :=
  h.resolve_right fun hlost => hlost.failed rfl

/-- What operations may do to the bindings unless they invalidate the engine. -/
structure BindingStep (step : Engine R → Engine R → Prop) : Prop where
  same : ∀ {a b}, SameBindings a b → step a b
  trans : ∀ {a b c}, step a b → step b c → step a c
  invalidations : ∀ {a b}, step a b → b.stats.invalidations = a.stats.invalidations

theorem bindingStep_same : BindingStep (SameBindings (R := R)) :=
  ⟨id, .trans, (·.invalidations)⟩

theorem bindingStep_more : BindingStep (MoreBindings (R := R)) :=
  ⟨(·.more), .trans, (·.invalidations)⟩

theorem OrLost.after {step : Engine R → Engine R → Prop} (hstep : BindingStep step)
    {a b c : EngineState R I G} {fault : Option Fault} (h : step a.engine b.engine)
    (h' : OrLost step b fault c) : OrLost step a fault c := by
  refine h'.imp (hstep.trans h) fun hlost => ⟨hlost.failed, ?_, hlost.bindings⟩
  rw [← hstep.invalidations h]
  exact hlost.invalidations

theorem OrLost.before {step : Engine R → Engine R → Prop} (hstep : BindingStep step)
    {a b c : EngineState R I G} {fault : Option Fault} (h : OrLost step a fault b)
    (h' : b.engine.SameBindings c.engine) : OrLost step a fault c := by
  refine h.imp (hstep.trans · (hstep.same h')) fun hlost => ⟨hlost.failed, ?_, ?_⟩
  · rw [h'.invalidations]
    exact hlost.invalidations
  · rw [h'.bindings]
    exact hlost.bindings

end Engine

open Engine (SameBindings MoreBindings Lost OrLost BindingStep)

namespace EngineState.Move

theorem sameBindings {t : Typer I G} {rt : Runtime R I G} {s s' : EngineState R I G}
    (h : Move t rt s s') : s.engine.SameBindings s'.engine := by
  cases h with
  | count found => cases found <;> exact ⟨rfl, rfl⟩
  | manage engine hselection hcache hinvalidations =>
    exact ⟨congrArg BindingCache.bindings hcache, hinvalidations⟩
  | _ => exact .refl _

end EngineState.Move

namespace EngineM

variable (t : Typer I G) (rt : Runtime R I G)

theorem steady_orLost {step : Engine R → Engine R → Prop} (hstep : BindingStep step) :
    Steady t rt (OrLost step) where
  stay := .inl (hstep.same (.refl _))
  trans h h' := h'.after hstep h.of_none
  ask _ _ := .inl (hstep.same ⟨rfl, rfl⟩)
  display _ _ := .inl (hstep.same ⟨rfl, rfl⟩)
  move h := .inl (hstep.same h.sameBindings)
  flushed _ h := h
  invalidated := by
    rintro s fault s' (h | h)
    · exact .inr ⟨nofun, Nat.lt_succ_of_le (Nat.le_of_eq (hstep.invalidations h).symm), rfl⟩
    · exact .inr ⟨nofun, Nat.lt_succ_of_lt h.invalidations, rfl⟩
  dropped h := h

theorem steady_same : Steady t rt (OrLost SameBindings) :=
  steady_orLost t rt Engine.bindingStep_same

theorem lost_flush {s s' : EngineState R I G} {fault : Fault}
    (h : (flush t).run s = (.error fault, s')) : s.engine.Lost (some fault) s'.engine := by
  obtain ⟨n, _, hrun, -⟩ | ⟨fault', s₁, hrun, hquiet⟩ := flush_cases t s
  · cases h.symm.trans hrun
  · cases h.symm.trans hrun
    refine ⟨nofun, ?_, rfl⟩
    rw [← hquiet.stats]
    exact Nat.lt_succ_self _

end EngineM

/-! ## Resolving -/

theorem Reference.binds_bindingTo (r : Reference) (signature : List TyParam × Ty) :
    r.Binds (r.bindingTo signature) := ⟨rfl, rfl, rfl⟩

/-- How resolving a macro ends: it was remembered, it is remembered from now on, or it failed and
nothing new is remembered. -/
inductive EngineState.Resolved (r : Reference) (s : EngineState R I G) :
    Except Fault Binding → EngineState R I G → Prop
  | known {b s'} (hknown : s.engine.binding? r = some b) (h : s.engine.SameBindings s'.engine) :
    Resolved r s (.ok b) s'
  | new {b s'} (hunknown : s.engine.binding? r = none) (hb : r.Binds b)
    (hbindings : s'.engine.cache.bindings = Entries.set s.engine.cache.bindings r b)
    (hinvalidations : s'.engine.stats.invalidations = s.engine.stats.invalidations) :
    Resolved r s (.ok b) s'
  | failed {fault s'} (h : OrLost SameBindings s (some fault) s') : Resolved r s (.error fault) s'

namespace EngineState.Resolved

variable {r : Reference} {a b c : EngineState R I G} {result : Except Fault Binding}

theorem after (h : a.engine.SameBindings b.engine) (h' : Resolved r b result c) :
    Resolved r a result c := by
  cases h' with
  | known hknown hsame => exact .known ((h.binding? r).symm.trans hknown) (h.trans hsame)
  | new hunknown hb hbindings hinvalidations =>
    refine .new ((h.binding? r).symm.trans hunknown) hb ?_ (hinvalidations.trans h.invalidations)
    rw [hbindings, h.bindings]
  | failed hfailed => exact .failed (hfailed.after Engine.bindingStep_same h)

theorem before (h : Resolved r a result b) (h' : b.engine.SameBindings c.engine) :
    Resolved r a result c := by
  cases h with
  | known hknown hsame => exact .known hknown (hsame.trans h')
  | new hunknown hb hbindings hinvalidations =>
    exact .new hunknown hb (h'.bindings.trans hbindings) (h'.invalidations.trans hinvalidations)
  | failed hfailed => exact .failed (hfailed.before Engine.bindingStep_same h')

theorem invalidations {binding : Binding} (h : Resolved r a (.ok binding) b) :
    b.engine.stats.invalidations = a.engine.stats.invalidations := by
  cases h with
  | known _ hsame => exact hsame.invalidations
  | new _ _ _ hinvalidations => exact hinvalidations

theorem lose {binding : Binding} {fault : Fault} (h : Resolved r a (.ok binding) b)
    (h' : b.engine.Lost (some fault) c.engine) : Resolved r a (.error fault) c := by
  refine .failed (.inr ⟨h'.failed, ?_, h'.bindings⟩)
  rw [← h.invalidations]
  exact h'.invalidations

theorem binding? {binding : Binding} (h : Resolved r a (.ok binding) b) :
    b.engine.binding? r = some binding := by
  cases h with
  | known hknown hsame => exact (hsame.binding? r).trans hknown
  | new _ _ hbindings _ =>
    unfold Engine.binding?
    rw [hbindings]
    exact Entries.get?_set_self _ r binding

theorem subset {fault : Fault} (h : Resolved r a (.error fault) b) :
    b.engine.cache.bindings ⊆ a.engine.cache.bindings := by
  cases h with
  | failed h =>
    rcases h with hsame | hlost
    · rw [hsame.bindings]
      exact List.Subset.refl _
    · rw [hlost.bindings]
      exact List.nil_subset _

theorem more (h : Resolved r a result b) : OrLost MoreBindings a (fault? result) b := by
  cases h with
  | known _ hsame => exact .inl hsame.more
  | failed h => exact h.imp SameBindings.more id
  | @new binding _ hunknown hb hbindings hinvalidations =>
    refine .inl ⟨fun {r' b'} hknown => ?_, fun {p} hp => ?_, hinvalidations⟩
    · have hne : r ≠ r' := by
        rintro rfl
        cases hunknown.symm.trans hknown
      unfold Engine.binding?
      rw [hbindings, Entries.get?_set_of_ne _ hne]
      exact hknown
    · rw [hbindings] at hp
      rcases Entries.mem_set hp with rfl | hp
      · exact .inr hb
      · exact .inl hp

end EngineState.Resolved

namespace EngineM

open EngineState (Resolved)

variable (t : Typer I G) (rt : Runtime R I G) (r : Reference)

include rt in
theorem resolved_resolve (display : Bool) (pos : Position) (s : EngineState R I G) :
    Resolved r s ((resolve t r display pos).run s).1 ((resolve t r display pos).run s).2 := by
  cases hknown : s.engine.binding? r with
  | some b =>
    rw [run_resolve_of_known t hknown]
    exact .known hknown ⟨rfl, rfl⟩
  | none =>
    rw [run_resolve_of_unknown t hknown]
    have hsame := (steady_same t rt).findSignature r display pos (s.counting false)
    refine .after (b := s.counting false) ⟨rfl, rfl⟩ ?_
    rcases hrun : (findSignature t r display pos).run (s.counting false) with
      ⟨fault | signature, s'⟩ <;> rw [hrun] at hsame
    · rw [run_bind_error hrun]
      exact .failed hsame
    · rw [run_bind_ok hrun]
      exact .after hsame.of_none (.new ((hsame.of_none.binding? r).trans hknown)
        (r.binds_bindingTo signature) rfl rfl)

theorem resolved_locate (side : Side) (display : Bool) (pos : Position) (s : EngineState R I G) :
    Resolved r s ((locate t rt side r display pos).run s).1
      ((locate t rt side r display pos).run s).2 := by
  cases side with
  | macros => exact resolved_resolve t rt r display pos s
  | program =>
    have hsame := (steady_same t rt).macroContext s
    rcases hrun : (macroContext t rt).run s with ⟨fault | scope, s'⟩ <;> rw [hrun] at hsame
    · have hlocate : (locate t rt .program r display pos).run s = _ := run_bind_error hrun
      rw [hlocate]
      exact .failed hsame
    · have hlocate : (locate t rt .program r display pos).run s = _ := run_bind_ok hrun
      rw [hlocate]
      exact .after hsame.of_none (resolved_resolve t rt r display pos s')

include rt in
/-- A flush that fails takes back what was resolved before it. -/
theorem resolved_settle (side : Side) (known : Bool) {b : Binding} {s s' : EngineState R I G}
    (h : Resolved r s (.ok b) s') :
    Resolved r s ((settle t side known b).run s').1 ((settle t side known b).run s').2 := by
  have hnoted : s'.engine.SameBindings (s'.noting side b).engine := .refl _
  obtain hrun | ⟨n, s₁, hflush, hrun⟩ | ⟨fault, s₁, hflush, hrun⟩ := settle_cases t side known b s'
  · rw [hrun]
    exact h.before hnoted
  · have hsame := (steady_same t rt).flush (s'.noting side b)
    rw [hflush] at hsame
    rw [hrun]
    exact h.before (hnoted.trans hsame.of_none)
  · rw [hrun]
    exact (h.before hnoted).lose (lost_flush t hflush)

theorem resolved_withMacroSelection {op : EngineM R I G Binding} {s : EngineState R I G}
    (h : Resolved r (s.selecting .macros) (op.run (s.selecting .macros)).1
      (op.run (s.selecting .macros)).2) :
    Resolved r s ((withMacroSelection op).run s).1 ((withMacroSelection op).run s).2 :=
  .before (b := (op.run (s.selecting .macros)).2)
    (.after (b := s.selecting .macros) ⟨rfl, rfl⟩ h) ⟨rfl, rfl⟩

theorem resolved_loadMacro (side : Side) (display : Bool) (pos : Position)
    (s : EngineState R I G) :
    Resolved r s ((loadMacro t rt side r display pos).run s).1
      ((loadMacro t rt side r display pos).run s).2 := by
  rw [run_loadMacro]
  refine resolved_withMacroSelection r ?_
  have hlocate := resolved_locate t rt r side display pos (s.selecting .macros)
  rcases hrun : (locate t rt side r display pos).run (s.selecting .macros) with
    ⟨fault | b, s'⟩ <;> rw [hrun] at hlocate
  · rw [run_bind_error hrun]
    exact hlocate
  · rw [run_bind_ok hrun]
    exact resolved_settle t rt r side _ hlocate

theorem driving_more : Driving t rt (OrLost MoreBindings) where
  toSteady := steady_orLost t rt Engine.bindingStep_more
  select := by
    intro s fault s' selection selection' h
    have hbefore : s.engine.SameBindings (s.selecting selection).engine := ⟨rfl, rfl⟩
    have hafter : s'.engine.SameBindings (s'.selecting selection').engine := ⟨rfl, rfl⟩
    exact (h.after Engine.bindingStep_more hbefore.more).before Engine.bindingStep_more hafter
  load side r display pos s := (resolved_loadMacro t rt r side display pos s).more
  call _ _ _ _ _ := .inl (SameBindings.more ⟨rfl, rfl⟩)

/-! ## Loads of what is remembered -/

/-- What a load of a macro does that is remembered. The type checkers are only asked for what a new
context needs. -/
def loadKnown (side : Side) (b : Binding) : EngineM R I G Binding :=
  withMacroSelection do
    if side = .program then
      let _ ← macroContext t rt
    modifyEngine fun e => { e with cache := e.cache.count true }
    modifyCompilation fun c => c.mapShared (·.record (c.moduleOf side) b.module .load)
    return b

theorem run_loadMacro_of_known {r : Reference} {b : Binding} {s : EngineState R I G}
    (h : s.engine.binding? r = some b) (side : Side) (display : Bool) (pos : Position) :
    (loadMacro t rt side r display pos).run s = (loadKnown t rt side b).run s := by
  have hhas : Entries.has s.engine.cache.bindings r = true := by
    unfold Engine.binding? at h
    rw [Entries.has, h]
    rfl
  rw [run_loadMacro, hhas, loadKnown, run_withMacroSelection, run_withMacroSelection]
  cases side with
  | macros =>
    have hresolve := run_resolve_of_known t (s := s.selecting .macros) h display pos
    have hlocate : (locate t rt .macros r display pos).run (s.selecting .macros) = _ := hresolve
    rw [run_bind_ok hlocate]
    rfl
  | program =>
    -- Making the context forgets nothing, so the macro is still known when it is looked up.
    have hsame := (steady_same t rt).macroContext (s.selecting .macros)
    rcases hrun : (macroContext t rt).run (s.selecting .macros) with ⟨fault | scope, s'⟩ <;>
      rw [hrun] at hsame
    · have hlocate : (locate t rt .program r display pos).run (s.selecting .macros) = _ :=
        run_bind_error hrun
      rw [run_bind_error hlocate]
      simp only [if_true]
      rw [run_bind_error hrun]
    · have hknown : s'.engine.binding? r = some b := (hsame.of_none.binding? r).trans h
      have hlocate : (locate t rt .program r display pos).run (s.selecting .macros) = _ :=
        (run_bind_ok hrun).trans (run_resolve_of_known t hknown display pos)
      rw [run_bind_ok hlocate]
      simp only [if_true]
      rw [run_bind_ok hrun]
      rfl

theorem run_loadKnown_of_macros {s : EngineState R I G} {side : Side}
    (h : side = .macros ∨ s.compilation.macros.isSome) (t' : Typer I G) (rt' : Runtime R I G)
    (b : Binding) : (loadKnown t rt side b).run s = (loadKnown t' rt' side b).run s := by
  rw [loadKnown, loadKnown, run_withMacroSelection, run_withMacroSelection]
  cases side with
  | macros => simp only [reduceCtorEq, if_false]
  | program =>
    have hmacros : ¬(s.selecting .macros).compilation.macros.isNone = true := by
      simpa [EngineState.selecting] using Option.isSome_iff_ne_none.mp (h.resolve_left nofun)
    have hcontext (t : Typer I G) (rt : Runtime R I G) :
        (macroContext t rt).run (s.selecting .macros) = enterContext.run (s.selecting .macros) := by
      rw [run_macroContext, if_neg hmacros]
    simp only [if_true]
    rcases hrun : (enterContext : EngineM R I G _).run (s.selecting .macros) with
      ⟨fault | scope, s'⟩
    · rw [run_bind_error ((hcontext t rt).trans hrun),
        run_bind_error ((hcontext t' rt').trans hrun)]
    · rw [run_bind_ok ((hcontext t rt).trans hrun), run_bind_ok ((hcontext t' rt').trans hrun)]

end EngineM

/-! ## Servers -/

namespace Server

variable (t : Typer I G) (rt : Runtime R I G)

/-- The macro is remembered: every load of it gives what is remembered if it succeeds. Its module
is not loaded for that, and once there is a context for macros no type checker and no runtime has
anything to do. -/
structure Remembers (s : Server ι R I G) (r : Reference) (b : Binding) : Prop where
  binding : s.engine.binding? r = some b
  recalled : ∀ i side display pos,
    (EngineM.loadMacro t rt side r display pos).run (s.view i) =
      (EngineM.loadKnown t rt side b).run (s.view i)
  settled : ∀ i side, side = .macros ∨ (s.compilations i).macros.isSome →
    ∀ t' rt', (EngineM.loadKnown t rt side b).run (s.view i) =
      (EngineM.loadKnown t' rt' side b).run (s.view i)
  answer : ∀ i side display pos b' state,
    (EngineM.loadMacro t rt side r display pos).run (s.view i) = (.ok b', state) → b' = b

variable {t rt} {s : Server ι R I G} {r : Reference} {b : Binding}

theorem remembers_iff : s.Remembers t rt r b ↔ s.engine.binding? r = some b := by
  refine ⟨(·.binding), fun h => ⟨h, fun i side display pos => ?_, fun i side hside t' rt' => ?_,
    fun i side display pos b' state hrun => ?_⟩⟩
  · exact EngineM.run_loadMacro_of_known t rt (s := s.view i) h side display pos
  · exact EngineM.run_loadKnown_of_macros t rt hside t' rt' b
  · have hresolved := EngineM.resolved_loadMacro t rt r side display pos (s.view i)
    rw [hrun] at hresolved
    cases hresolved with
    | known hknown _ => exact Option.some.inj (hknown.symm.trans h)
    | new hunknown => cases hunknown.symm.trans h

variable [DecidableEq ι]

/-- The engine is made to forget the macros of a module: all macros, or the module with those that
depend on it, or everything because something failed. -/
def Drops (t : Typer I G) (rt : Runtime R I G) (s : Server ι R I G) (module : Path) :
    ServerStep ι I G → Prop
  | .request _ .resetCache => True
  | .request i (.invalidateModule m) => module = m ∨ (s.view i).graph.Reaches module m
  | step => s.engine.stats.invalidations < (s.step t rt step).engine.stats.invalidations

variable (t rt)

inductive Forgets (t : Typer I G) (rt : Runtime R I G) (s : Server ι R I G)
    (step : ServerStep ι I G) : Prop
  | nothing (h : s.engine.MoreBindings (s.step t rt step).engine)
    (hdrops : ∀ module, ¬s.Drops t rt module step)
  | modules (keeps : Path → Bool)
    (h : (s.step t rt step).engine.cache.bindings =
      s.engine.cache.bindings.filter fun p => keeps p.2.module)
    (hdrops : ∀ module, s.Drops t rt module step ↔ keeps module = false)

theorem forgets_of_driven {step : ServerStep ι I G}
    (hdrops : ∀ module, s.Drops t rt module step ↔
      s.engine.stats.invalidations < (s.step t rt step).engine.stats.invalidations)
    (h : s.engine.MoreBindings (s.step t rt step).engine ∨
      s.engine.stats.invalidations < (s.step t rt step).engine.stats.invalidations ∧
        (s.step t rt step).engine.cache.bindings = []) : Forgets t rt s step := by
  rcases h with hmore | ⟨hinvalidations, hbindings⟩
  · refine .nothing hmore fun module hmodule => ?_
    have hlt := (hdrops module).mp hmodule
    rw [hmore.invalidations] at hlt
    exact Nat.lt_irrefl _ hlt
  · refine .modules (fun _ => false) ?_ fun module => ?_
    · simp [hbindings]
    · simpa [hdrops module] using hinvalidations

theorem forgets_request {i : ι} {q : EngineRequest} (hq : ¬q.Manages)
    (hdrops : ∀ module, s.Drops t rt module (.request i q) ↔
      s.engine.stats.invalidations <
        (s.step t rt (.request i q)).engine.stats.invalidations) :
    Forgets t rt s (.request i q) := by
  refine forgets_of_driven t rt hdrops ?_
  have h := (EngineM.driving_more t rt).operation q (fun hmanages => absurd hmanages hq) (s.view i)
  exact h.imp id fun hlost => ⟨hlost.invalidations, hlost.bindings⟩

theorem forgets_step (s : Server ι R I G) (step : ServerStep ι I G) : Forgets t rt s step := by
  cases step with
  | compile i work => exact forgets_of_driven t rt (fun _ => .rfl) (.inl (SameBindings.refl _).more)
  | request i q =>
    cases q with
    | resetCache => exact .modules (fun _ => false) (by simp; rfl) (by simp [Drops])
    | invalidate =>
      exact forgets_of_driven t rt (fun _ => .rfl) (.inr ⟨Nat.lt_succ_self _, rfl⟩)
    | invalidateModule m =>
      have hrun := EngineM.run_invalidateModule (s.view i) m
      have hmem := (affects_affectedBy (s.view i).graph m).2
      refine .modules (fun p => p ∉ EngineM.affectedBy (s.view i).graph m) ?_ fun module => ?_
      · exact congrArg (fun ended => ended.2.engine.cache.bindings) hrun
      · rw [decide_eq_false_iff_not, not_not]
        exact (hmem module).symm
    | select selection =>
      exact forgets_of_driven t rt (fun _ => .rfl) (.inl (SameBindings.more ⟨rfl, rfl⟩))
    | _ => exact forgets_request t rt id fun _ => .rfl

variable {t rt}

theorem remembers_step (hs : s.engine.binding? r = some b) (step : ServerStep ι I G) :
    (s.step t rt step).engine.binding? r = some b ↔ ¬s.Drops t rt b.module step := by
  obtain ⟨hmore, hdrops⟩ | ⟨keeps, hbindings, hdrops⟩ := forgets_step t rt s step
  · exact ⟨fun _ => hdrops b.module, fun _ => hmore.known hs⟩
  · unfold Engine.binding? at hs ⊢
    rw [hbindings, hdrops, Bool.not_eq_false]
    refine ⟨fun h => (List.mem_filter.mp (Entries.mem_of_get? h)).2, fun hkept => ?_⟩
    exact Entries.get?_filter hs hkept

/-- Every macro is remembered as what its reference names. -/
def Coherent (s : Server ι R I G) : Prop := ∀ p ∈ s.engine.cache.bindings, p.1.Binds p.2

theorem coherent_step (hs : s.Coherent) (step : ServerStep ι I G) :
    (s.step t rt step).Coherent := by
  intro p hp
  obtain ⟨hmore, -⟩ | ⟨keeps, hbindings, -⟩ := forgets_step t rt s step
  · exact (hmore.new hp).elim (hs p) id
  · rw [hbindings] at hp
    exact hs p (List.mem_of_mem_filter hp)

theorem coherent_run (hs : s.Coherent) (steps : List (ServerStep ι I G)) :
    (s.run t rt steps).Coherent := by
  induction steps generalizing s with
  | nil => exact hs
  | cons step steps ih => exact ih (coherent_step hs step)

/-- What is remembered stays remembered up to the first step that drops it. -/
theorem remembers_run (hs : s.engine.binding? r = some b) (steps : List (ServerStep ι I G)) :
    (s.run t rt steps).Remembers t rt r b ∨
      ∃ before step after, steps = before ++ step :: after ∧
        (s.run t rt before).Remembers t rt r b ∧
        (s.run t rt before).Drops t rt b.module step := by
  induction steps generalizing s with
  | nil => exact .inl (remembers_iff.mpr hs)
  | cons step steps ih =>
    by_cases hdrops : s.Drops t rt b.module step
    · exact .inr ⟨[], step, steps, rfl, remembers_iff.mpr hs, hdrops⟩
    · rcases ih ((remembers_step hs step).mpr hdrops) with
        hend | ⟨before, dropping, after, hsteps, h⟩
      · exact .inl hend
      · exact .inr ⟨step :: before, dropping, after, by rw [hsteps]; rfl, h⟩

variable (t rt)

/-- Whatever happens on a server: every macro is remembered as what its reference names, a load that
fails teaches the engine nothing, and what a load gives is remembered until it is dropped. -/
theorem loads_are_remembered (primary : ι → Scope I) (shared : ι → Shared) (world : World G)
    (steps : List (ServerStep ι I G)) :
    ∃ s : Server ι R I G, (start primary shared world).run t rt steps = s ∧ s.Coherent ∧
      ∀ i side r display pos, ∃ result state,
        (EngineM.loadMacro t rt side r display pos).run (s.view i) = (result, state) ∧
        (∀ fault, result = .error fault →
          state.engine.cache.bindings ⊆ s.engine.cache.bindings) ∧
        ∀ b, result = .ok b →
          (s.put i state).Remembers t rt r b ∧
          ∀ later, ((s.put i state).run t rt later).Remembers t rt r b ∨
            ∃ before step after, later = before ++ step :: after ∧
              ((s.put i state).run t rt before).Remembers t rt r b ∧
              ((s.put i state).run t rt before).Drops t rt b.module step := by
  refine ⟨_, rfl, coherent_run (fun _ h => absurd h List.not_mem_nil) steps,
    fun i side r display pos => ?_⟩
  have hload := EngineM.resolved_loadMacro t rt r side display pos
    (((start primary shared world).run t rt steps).view i)
  generalize (EngineM.loadMacro t rt side r display pos).run _ = ended at hload ⊢
  obtain ⟨result, state⟩ := ended
  refine ⟨result, state, rfl, ?_, ?_⟩
  · rintro fault rfl
    exact hload.subset
  · rintro b rfl
    exact ⟨remembers_iff.mpr hload.binding?, remembers_run hload.binding?⟩

end Server

end HaxeMacro
