import HaxeMacro.Proofs.Engine.Turns

/-! # Operations that need the runtime

An operation that runs code asks for the context for macros first, which brings a runtime with it.
So unless a compilation has a context for macros but no runtime, none of its operations fails for
want of a runtime.
-/

namespace HaxeMacro

variable {R I G α β : Type}

/-- The runtime stops with the words of an engine that has no runtime. -/
def Runtime.StopsAsMissing (rt : Runtime R I G) : Prop :=
  ∃ task state session,
    ((rt.perform task).run (state, session)).1 = .error (.fatal "No live macro runtime")

namespace EngineState

def Live (s : EngineState R I G) : Prop := s.engine.isLive = true

/-- A context for macros has a runtime that can be used. -/
def Backed (s : EngineState R I G) : Prop := s.compilation.macros.isSome → s.Live

variable {rt : Runtime R I G} {pre : EngineState R I G → Prop} {s s' : EngineState R I G}
  {fault : Option Fault}

theorem live_of_runtime {live : LiveRuntime R} (hlive : s.engine.runtime = some live)
    (hpoisoned : live.handle.poisoned = false) : s.Live := by
  simp [Live, Engine.isLive, hlive, hpoisoned]

theorem Quiet.live_iff (h : s.Quiet s') : s'.Live ↔ s.Live := by
  unfold Live Engine.isLive
  rw [h.runtime]

/-- Turns lead from one state to the other. If `pre` holds in the first one, there is a runtime in
the end unless something has failed, and nothing fails for want of one. -/
structure Served (rt : Runtime R I G) (pre : EngineState R I G → Prop) (s : EngineState R I G)
    (fault : Option Fault) (s' : EngineState R I G) : Prop where
  moved : Moved rt s s'
  live : pre s → fault = none → s'.Live
  words : pre s → ∀ f ∈ fault, f.NoRuntime → rt.StopsAsMissing

namespace Served

theorem of_quiet (h : s.QuietEnd fault s') (hlive : pre s → fault = none → s.Live) :
    Served rt pre s fault s' where
  moved := (Turn.quiet h.toQuiet).moved
  live hs hfault := h.live_iff.mpr (hlive hs hfault)
  words _ f hf hmissing := absurd hmissing (h.served f hf)

theorem failed {f : Fault} (hmoved : Moved rt s s') (hf : ¬f.NoRuntime) :
    Served rt pre s (some f) s' :=
  ⟨hmoved, nofun, fun _ _ hmem hmissing => absurd (Option.some.inj hmem ▸ hmissing) hf⟩

theorem done (hmoved : Moved rt s s') (hlive : s'.Live) : Served rt pre s none s' :=
  ⟨hmoved, fun _ _ => hlive, nofun⟩

theorem of_not (hmoved : Moved rt s s') (hs : ¬pre s) : Served rt pre s fault s' :=
  ⟨hmoved, fun h => absurd h hs, fun h => absurd h hs⟩

theorem trans {a b c : EngineState R I G} (h : Served rt pre a none b)
    (h' : Served rt Live b fault c) : Served rt pre a fault c where
  moved := h.moved.trans h'.moved
  live ha := h'.live (h.live ha rfl)
  words ha := h'.words (h.live ha rfl)

theorem mono {pre' : EngineState R I G → Prop} (himp : pre' s → pre s)
    (h : Served rt pre s fault s') : Served rt pre' s fault s' :=
  ⟨h.moved, fun hs => h.live (himp hs), fun hs => h.words (himp hs)⟩

end Served

/-- Turns lead from one state to the other, and if no context for macros lacks its runtime in the
first one, nothing fails for want of one. -/
structure Answered (rt : Runtime R I G) (s : EngineState R I G) (fault : Option Fault)
    (s' : EngineState R I G) : Prop where
  moved : Moved rt s s'
  words : s.Backed → ∀ f ∈ fault, f.NoRuntime → rt.StopsAsMissing

namespace Answered

theorem of_served (h : Served rt Backed s fault s') : Answered rt s fault s' := ⟨h.moved, h.words⟩

theorem of_quiet (h : s.QuietEnd fault s') : Answered rt s fault s' :=
  ⟨(Turn.quiet h.toQuiet).moved, fun _ f hf hmissing => absurd hmissing (h.served f hf)⟩

theorem trans_quiet {a b c : EngineState R I G} (h : Answered rt a none b)
    (h' : b.QuietEnd fault c) : Answered rt a fault c :=
  ⟨h.moved.trans (Turn.quiet h'.toQuiet).moved,
    fun _ f hf hmissing => absurd hmissing (h'.served f hf)⟩

end Answered

end EngineState

open EngineState (Turn Moved Live Backed Served Answered)

namespace EngineM

variable (t : Typer I G) (rt : Runtime R I G)

theorem chain_served : Chain (Served rt Live) := ⟨fun h => .of_quiet h fun hs _ => hs, .trans⟩

theorem served_of_still {op : EngineM R I G α} (h : Still op) : Leads (Served rt Live) op :=
  Leads.still (chain_served rt) h

theorem served_pure (a : α) : Leads (Served rt Live) (pure a : EngineM R I G α) :=
  served_of_still rt (still_pure a)

theorem Leads.andThen {pre : EngineState R I G → Prop} {op : EngineM R I G α}
    {f : α → EngineM R I G β} (h : Leads (Served rt pre) op)
    (hf : ∀ a, Leads (Served rt Live) (f a)) : Leads (Served rt pre) (op >>= f) :=
  Leads.seq .trans h hf

theorem served_throw {pre : EngineState R I G → Prop} {fault : Fault} (h : ¬fault.NoRuntime) :
    Leads (Served rt pre) (throw fault : EngineM R I G α) :=
  fun s => .of_quiet (still_throw h s) nofun

theorem served_withMacroSelection {op : EngineM R I G α} (h : Leads (Served rt Backed) op) :
    Leads (Served rt Backed) (withMacroSelection op) := by
  refine Leads.withMacroSelection (fun {s fault s'} selection selection' h => ?_) h
  have hbefore : Moved rt s { s with engine := { s.engine with selection } } :=
    Turn.moved (.quiet ⟨rfl, rfl, rfl, rfl⟩)
  have hafter : Moved rt s' { s' with engine := { s'.engine with selection := selection' } } :=
    Turn.moved (.quiet ⟨rfl, rfl, rfl, rfl⟩)
  exact ⟨(hbefore.trans h.moved).trans hafter, h.live, h.words⟩

/-! ## Contexts -/

theorem run_acquireRuntime (s : EngineState R I G) :
    (∃ live, s.engine.runtime = some live ∧ live.handle.poisoned = false ∧
      (acquireRuntime t rt).run s = (reuseRuntime rt live).run s) ∨
    (acquireRuntime t rt).run s = (createRuntime t rt).run s := by
  have hget : (acquireRuntime t rt).run s = _ := run_bind_ok rfl
  rw [hget]
  cases hlive : s.engine.runtime with
  | none => exact .inr rfl
  | some live =>
    by_cases hreuse : (s.compilation.primary.config.macros.reuseRuntime &&
      !live.handle.poisoned) = true
    · simp only [hreuse, if_true]
      exact .inl ⟨live, rfl, by simpa using (Bool.and_eq_true_iff.mp hreuse).2, rfl⟩
    · simp only [hreuse]
      exact .inr rfl

/-- A context for macros is made together with a runtime, or it is not kept. -/
theorem served_createContext {pre : EngineState R I G → Prop} :
    Leads (Served rt pre) (createContext t rt) := by
  intro s
  let forked : EngineState R I G := { s with
    engine := s.engine.countContext
    world := (s.compilation.primary.forkForMacros t s.world).2
    compilation := { s.compilation.mapReporter (·.intercept) with
      macros := some (s.compilation.primary.forkForMacros t s.world).1 } }
  have hnext : (createContext t rt).run s = (tryCatch (acquireRuntime t rt) _).run forked :=
    (run_bind_ok rfl).trans ((run_bind_ok rfl).trans (run_bind_ok rfl))
  rw [hnext, run_tryCatch]
  obtain ⟨live, hlive, hpoisoned, hrun⟩ | hrun := run_acquireRuntime t rt forked
  · rw [hrun]
    exact .done (Turn.moved (.reuse hlive hpoisoned rfl rfl rfl))
      (EngineState.live_of_runtime rfl hpoisoned)
  · obtain ⟨result, s', hcreate, hcreates, ⟨⟨fault, rfl, hfault⟩, hnone⟩ | ⟨rfl, hprepared⟩⟩ :=
      creates_createRuntime t rt forked
    · rw [hrun, hcreate]
      exact .failed (Turn.moved (.create hcreates (.inr ⟨hnone, rfl⟩))) hfault
    · rw [hrun, hcreate]
      have ⟨_, _, _, _, hruntime⟩ := hprepared
      exact .done (Turn.moved (.create hcreates (.inl hprepared)))
        (EngineState.live_of_runtime hruntime rfl)

/-- The part of `macroContext` after the context is made. -/
def enterContext : EngineM R I G (Scope I) := do
  let s ← get
  match s.compilation.macros with
  | none => fail noMacroContext
  | some macros =>
    let macros := { macros with module := s.compilation.primary.module }
    modifyCompilation fun c => { c with macros := some macros }
    return macros

theorem still_enterContext : Still (enterContext : EngineM R I G (Scope I)) := by
  refine Leads.get fun s => ?_
  cases h : s.compilation.macros with
  | none => exact still_noMacroContext s
  | some macros => exact .done ⟨rfl, rfl, rfl, by rw [h]; rfl⟩

theorem run_macroContext (s : EngineState R I G) :
    (macroContext t rt).run s =
      if s.compilation.macros.isNone then (do createContext t rt; enterContext).run s
      else enterContext.run s := by
  have hget : (macroContext t rt).run s = _ := run_bind_ok rfl
  rw [hget]
  split <;> rfl

theorem served_macroContext : Leads (Served rt Backed) (macroContext t rt) := by
  intro s
  rw [run_macroContext]
  split
  · exact (served_createContext t rt).andThen rt
      (fun _ => served_of_still rt still_enterContext) s
  · rename_i hsome
    refine .of_quiet (still_enterContext s) fun hs _ => hs ?_
    simpa [Option.isSome_iff_ne_none] using hsome

/-- A state with a runtime is one in which no context for macros lacks it. -/
theorem served_of_backed {op : EngineM R I G α} (h : Leads (Served rt Backed) op) :
    Leads (Served rt Live) op :=
  fun s => (h s).mono fun hs _ => hs

theorem answered_flush : Leads (Answered rt) (flush t : EngineM R I G Nat) := by
  intro s
  obtain ⟨n, s', hrun, hquiet⟩ | ⟨fault, s', hrun, hquiet⟩ := flush_cases t s
  · rw [hrun]
    exact .of_quiet (.done hquiet)
  · rw [hrun]
    have hend : Answered rt s (some fault) s' := .of_quiet hquiet
    exact ⟨hend.moved.trans (Turn.invalidate s').moved, hend.words⟩

theorem served_flush : Leads (Served rt Live) (flush t : EngineM R I G Nat) := by
  intro s
  have h := answered_flush t rt s
  refine ⟨h.moved, fun hs hok => ?_, fun hs => h.words fun _ => hs⟩
  obtain ⟨n, s', hrun, hquiet⟩ | ⟨fault, s', hrun, -⟩ := flush_cases t s <;> rw [hrun] at hok ⊢
  · exact hquiet.live_iff.mpr hs
  · cases hok

theorem isFatal_exceptionError (folder : DumpFolder) (name : String) (payload : Value)
    (pos : Position) : (exceptionError folder name payload pos).isFatal = false := by
  unfold exceptionError
  cases payload.decodeString <;> rfl

theorem served_withRuntime (name : String) (pos : Position) (task : RuntimeTask) :
    Leads (Served rt Live) (withRuntime name pos (rt.perform task)) := by
  refine Leads.get fun s => ?_
  -- A call is refused, and nothing happens, only where there is no runtime to begin with.
  have hstay : Moved rt s s := (Turn.quiet (.refl s)).moved
  cases hlive : s.engine.runtime with
  | none => exact .of_not hstay (by simp [Live, Engine.isLive, hlive])
  | some live =>
    by_cases hpoisoned : live.handle.poisoned = true
    · simp only [hpoisoned, if_true]
      exact .of_not hstay (by simp [Live, Engine.isLive, hlive, hpoisoned])
    · simp only [hpoisoned]
      rcases hrun : (rt.perform task).run (live.state, (beginCall s name pos).2) with
        ⟨result, state, session⟩
      let ended := endCall s (beginCall s name pos).1 live state session
      have hruntime : ended.engine.runtime = some { live with
          state := ((rt.perform task).run (live.state, (beginCall s name pos).2)).2.1 } := by
        rw [hrun]
        rfl
      have hhealthy : live.handle.poisoned = false := by simpa using hpoisoned
      have hended : Moved rt s ended := Turn.moved (.run hlive hhealthy hruntime rfl rfl)
      rcases result with (payload | message | stop) | value
      · exact .failed hended (Fault.not_noRuntime_of_isFatal (isFatal_exceptionError _ _ _ _))
      · refine ⟨hended.trans (Turn.invalidate ended).moved, nofun, fun _ f hf hmissing => ?_⟩
        cases hf
        obtain rfl : message = "No live macro runtime" := hmissing
        exact ⟨task, live.state, (beginCall s name pos).2, by rw [hrun]⟩
      · exact .failed hended id
      · exact .done hended (EngineState.live_of_runtime hruntime hhealthy)

/-! ## Calls -/

theorem still_record (side : Side) (b : Binding) :
    Still (modifyCompilation fun c => c.mapShared (·.record (c.moduleOf side) b.module .load) :
      EngineM R I G Unit) :=
  fun _ => .done ⟨rfl, rfl, rfl, rfl⟩

theorem served_loadMacro (r : Reference) (display : Bool) (pos : Position) :
    Leads (Served rt Backed) (loadMacro t rt .program r display pos) := by
  refine served_withMacroSelection rt (Leads.get fun s => ?_)
  refine (served_macroContext t rt).andThen rt (fun _ => ?_) s
  refine (served_of_still rt (still_resolve t r display pos)).andThen rt fun b => ?_
  refine (served_of_still rt (still_record .program b)).andThen rt fun _ => ?_
  split
  · exact (served_flush t rt).andThen rt fun _ => served_pure rt b
  · exact served_pure rt b

/-- Macro code resolves macros without a flush. -/
theorem still_loadMacro (r : Reference) (display : Bool) (pos : Position) :
    Still (loadMacro t rt .macros r display pos) := by
  refine Leads.withMacroSelection (fun _ _ h => ?_) (Leads.get fun s => ?_)
  · exact ⟨⟨h.runtime, h.generation, h.stats, h.macros⟩, h.served⟩
  refine Still.bind (still_resolve t r display pos) (fun b => ?_) s
  refine (still_record .macros b).bind fun _ => ?_
  simp only [reduceCtorEq, decide_false, Bool.and_false, Bool.false_eq_true, if_false]
  exact still_pure b

theorem served_evaluate (name : String) (pos : Position) (e : TypedExpr) :
    Leads (Served rt Live) (evaluate rt name pos e) :=
  (served_withRuntime rt name pos (.evalExpr e)).andThen rt fun _ => served_pure rt _

theorem served_marshalArg (name : String) (pos : Position) (args : List Expr) (p : TyParam)
    (kind : ArgClass) (matched : MatchedArg) :
    Leads (Served rt Live) (marshalArg t rt name pos args p kind matched) := by
  cases matched with
  | omitted => exact served_pure rt _
  | supplied index typed =>
    cases kind with
    | expression => exact served_pure rt _
    | evaluated => exact served_evaluate rt name pos typed
    | closure =>
      refine (served_of_backed rt (served_macroContext t rt)).andThen rt fun _ => ?_
      refine (served_of_still rt (still_checkMacros _)).andThen rt fun result => ?_
      refine (served_of_still rt (still_orFail result)).andThen rt fun typed => ?_
      exact served_evaluate rt name pos typed

theorem served_marshalArgs (name : String) (pos : Position) (args : List Expr)
    (params : List (TyParam × ArgClass)) (matched : List MatchedArg) :
    Leads (Served rt Live) (marshalArgs t rt name pos args params matched) := by
  induction params generalizing matched with
  | nil => exact served_pure rt []
  | cons p ps ih =>
    refine (served_marshalArg t rt name pos args p.1 p.2 _).andThen rt fun v => ?_
    exact (ih _).andThen rt fun vs => served_pure rt _

theorem served_call (mode : CallMode) (r : Reference) (b : Binding) (args : List Expr)
    (pos : Position) : Leads (Served rt Backed) (call t rt mode r b args pos) := by
  refine (served_macroContext t rt).andThen rt fun _ => ?_
  refine (Leads.mapM (chain_served rt) _ fun p =>
    served_of_still rt (still_classify t p)).andThen rt fun classes => ?_
  refine (served_of_still rt (still_checkPrimary _)).andThen rt fun matched => ?_
  refine (served_of_still rt (still_orFail matched)).andThen rt fun matched => ?_
  refine (served_marshalArgs t rt _ _ _ _ _).andThen rt fun values => ?_
  refine (served_withRuntime rt _ _ (.callByPath _ _ _)).andThen rt fun result => ?_
  cases result with
  | none => exact served_pure rt _
  | some v => exact served_of_still rt (still_readResult t mode v pos)

theorem served_invoke (mode : CallMode) (r : Reference) (args : List Expr) (pos : Position) :
    Leads (Served rt Backed) (invoke t rt .program mode r args pos) := by
  refine served_withMacroSelection rt ?_
  refine (served_loadMacro t rt _ _ _).andThen rt fun b => ?_
  refine (served_of_backed rt (served_macroContext t rt)).andThen rt fun _ => ?_
  refine (served_of_still rt (still_checkContract t mode b pos)).andThen rt fun _ => ?_
  by_cases hmode : mode = .display
  · rw [if_pos hmode]
    exact served_pure rt _
  · rw [if_neg hmode]
    exact served_of_backed rt (served_call t rt mode r b args pos)

theorem isFatal_initCall {e : Expr} {error : MacroError} (h : e.initCall = .error error) :
    error.isFatal = false := by
  unfold Expr.initCall at h
  repeat' split at h
  all_goals cases h <;> rfl

theorem served_runInit (text : String) : Leads (Served rt Backed) (runInit t rt text) := by
  unfold runInit
  cases Expr.parse text .null with
  | error e => exact served_throw rt id
  | ok e =>
    dsimp only
    cases hcall : e.initCall with
    | error error =>
      exact served_throw rt (Fault.not_noRuntime_of_isFatal (isFatal_initCall hcall))
    | ok call =>
      obtain ⟨r, args⟩ := call
      rw [ofResult, pure_bind]
      dsimp only
      cases hargs : args.mapM Expr.constant with
      | error fault =>
        have hmild : Mild (args.mapM Expr.constant) := .mapM Expr.mild_constant args
        exact served_throw rt (Fault.not_noRuntime_of_isFatal (hmild fault hargs))
      | ok values =>
        refine served_withMacroSelection rt ?_
        refine (served_loadMacro t rt _ _ _).andThen rt fun b => ?_
        exact served_withRuntime rt _ _ (.callByPath _ _ _)

theorem answered_runHooks (kind : HookKind) (args : List Value) :
    Leads (Answered rt) (runHooks t rt kind args) := by
  refine Leads.get fun s => ?_
  by_cases hempty : (s.compilation.shared.hooks.get kind).isEmpty = true
  · simp only [hempty, if_true]
    exact .of_quiet (still_pure 0 s)
  · simp only [hempty]
    refine .of_served ((served_macroContext t rt).andThen rt (fun _ => ?_) s)
    refine (Leads.forM (chain_served rt) _ fun callback => ?_).andThen rt fun _ => served_pure rt _
    exact (served_withRuntime rt _ _ (.callFunction _ _)).andThen rt fun _ => served_pure rt _

/-! ## Requests -/

theorem Leads.ignore {op : EngineM R I G α} (h : Leads (Answered rt) op) :
    Leads (Answered rt) (do let _ ← op) :=
  Leads.seq .trans_quiet h fun _ => still_pure _

theorem answered_of_served {op : EngineM R I G α} (h : Leads (Served rt Backed) op) :
    Leads (Answered rt) op :=
  fun s => .of_served (h s)

theorem answered_of_still {op : EngineM R I G α} (h : Still op) : Leads (Answered rt) op :=
  fun s => .of_quiet (h s)

theorem answered_loadMacro (side : Side) (r : Reference) (display : Bool) (pos : Position) :
    Leads (Answered rt) (loadMacro t rt side r display pos) := by
  cases side with
  | program => exact answered_of_served rt (served_loadMacro t rt r display pos)
  | macros => exact answered_of_still rt (still_loadMacro t rt r display pos)

theorem answered_invoke (side : Side) (mode : CallMode) (r : Reference) (args : List Expr)
    (pos : Position) : Leads (Answered rt) (invoke t rt side mode r args pos) := by
  cases side with
  | program => exact answered_of_served rt (served_invoke t rt mode r args pos)
  | macros => exact answered_of_still rt (still_pure _)

theorem answered_invalidate : Leads (Answered rt) (invalidate : EngineM R I G Unit) :=
  fun s => ⟨(Turn.invalidate s).moved, nofun⟩

theorem still_invalidateModule (module : Path) :
    Still (invalidateModule module : EngineM R I G Nat) :=
  fun _ => .done ⟨rfl, rfl, rfl, rfl⟩

theorem still_restoreModule (module : Path) :
    Still (restoreModule module : EngineM R I G (Option Nat)) := by
  refine Leads.get fun s => ?_
  cases Entries.get? s.compilation.shared.modules module with
  | none => exact still_pure _ s
  | some id =>
    cases h : s.world.module? id with
    | none => simpa only [h] using still_pure _ s
    | some m =>
      simp only [h]
      exact .done ⟨rfl, rfl, rfl, rfl⟩

end EngineM

end HaxeMacro
