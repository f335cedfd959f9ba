import HaxeMacro.Engine.Invoke
import HaxeMacro.Proofs.Filter.Batch
import HaxeMacro.Proofs.Value.Faults

/-! # Runs of operations

How an operation ends is put together from what its parts do, by a relation that goes on from one
part to the next. Most operations leave the runtime and all counts as they are.
-/

namespace HaxeMacro

variable {R I G α β : Type}

theorem Engine.isLive_invalidate (e : Engine R) : e.invalidate.isLive = false := by
  unfold isLive invalidate
  cases e.runtime <;> rfl

/-! ## Faults -/

namespace Fault

def NoRuntime : Fault → Prop
  | .error (.fatal message _) => message = "No live macro runtime"
  | _ => False

theorem not_noRuntime_of_isFatal {fault : Fault} (h : fault.isFatal = false) :
    ¬fault.NoRuntime := by
  cases fault with
  | error e =>
    cases e with
    | fatal => cases h
    | _ => exact id
  | stopped => exact id

theorem not_noRuntime_of_start {start : String} (h : ∃ c ∈ start.toList.head?, c ≠ 'N')
    (text : String) (pos : Position) : ¬(error (.fatal (start ++ text) pos)).NoRuntime := by
  intro heq
  obtain ⟨c, hc, hne⟩ := h
  have hhead := congrArg (fun message : String => message.toList.head?) heq
  have hfirst : (start ++ text).toList.head? = some c := by
    simp [Option.mem_def.mp hc]
  exact hne (Option.some.inj (hfirst.symm.trans hhead))

end Fault

theorem TypingError.isFatal_toMacroError (e : TypingError) : e.toMacroError.isFatal = false := by
  unfold toMacroError
  cases e.kind <;> rfl

theorem World.Fails.not_noRuntime {ids : List ModuleId} {w : World G} {error : MacroError}
    (h : w.Fails ids error) : ¬(Fault.error error).NoRuntime := by
  obtain ⟨_, -, _, -, _, -, c, e, -, rfl⟩ := h
  unfold FilterPipeline.flushError
  rw [String.append_assoc, String.append_assoc]
  exact Fault.not_noRuntime_of_start ⟨'F', by decide, by decide⟩ _ _

theorem Reference.isFatal_signature (r : Reference) {m : ModuleDef} {pos : Position}
    {e : MacroError} (h : r.signature m pos = .error e) : e.isFatal = false := by
  unfold signature at h
  repeat' split at h
  all_goals cases h <;> rfl

def fault? : Except Fault α → Option Fault
  | .ok _ => none
  | .error fault => some fault

/-! ## Parts of computations -/

section

variable {ε σ : Type} {op : ExceptT ε (StateM σ) α} {f : α → ExceptT ε (StateM σ) β} {s s' : σ}

theorem run_bind_ok {a : α} (h : op.run s = (.ok a, s')) : (op >>= f).run s = (f a).run s' := by
  rw [ExceptT.run_bind]
  change StateT.bind op.run _ s = _
  simp only [StateT.bind, h]
  rfl

theorem run_bind_error {e : ε} (h : op.run s = (.error e, s')) :
    (op >>= f).run s = (.error e, s') := by
  rw [ExceptT.run_bind]
  change StateT.bind op.run _ s = _
  simp only [StateT.bind, h]
  rfl

/-- A computation that succeeds has succeeded in its first part. -/
theorem ok_of_run_bind {b : β} (h : (op >>= f).run s = (.ok b, s')) :
    ∃ a s₁, op.run s = (.ok a, s₁) ∧ (f a).run s₁ = (.ok b, s') := by
  rcases hrun : op.run s with ⟨e | a, s₁⟩
  · rw [run_bind_error hrun] at h
    cases h
  · exact ⟨a, s₁, rfl, (run_bind_ok hrun).symm.trans h⟩

theorem forall₂_of_run_mapM {as : List α} {bs : List β} (h : (as.mapM f).run s = (.ok bs, s')) :
    List.Forall₂ (fun a b => ∃ s₁ s₂, (f a).run s₁ = (.ok b, s₂)) as bs := by
  induction as generalizing bs s with
  | nil =>
    cases h
    exact .nil
  | cons a as ih =>
    rw [List.mapM_cons] at h
    obtain ⟨b, s₁, hb, h⟩ := ok_of_run_bind h
    obtain ⟨bs, s₂, hbs, h⟩ := ok_of_run_bind h
    cases h
    exact .cons ⟨s, s₁, hb⟩ (ih hbs)

end

namespace EngineState

/-- A flush has nothing to do: another one is going on, or there are no macros. -/
def Idle (s : EngineState R I G) : Prop :=
  s.compilation.shared.flushing = true ∨ s.compilation.macros = none

def withFlushing (s : EngineState R I G) (flushing : Bool) : EngineState R I G :=
  { s with compilation := s.compilation.mapShared fun shared => { shared with flushing } }

def publishing (s : EngineState R I G) (ids : List ModuleId) : EngineState R I G :=
  { s with compilation := s.compilation.mapShared fun shared =>
    { shared with modules := s.world.publish ids shared.modules } }

def invalidated (s : EngineState R I G) : EngineState R I G :=
  { s with engine := s.engine.invalidate, compilation := { s.compilation with macros := none } }

/-- Nothing happens to the runtime, and the compilation neither gets macros nor loses them. -/
structure Quiet (s s' : EngineState R I G) : Prop where
  runtime : s'.engine.runtime = s.engine.runtime
  generation : s'.engine.generation = s.engine.generation
  stats : s'.engine.stats = s.engine.stats
  macros : s'.compilation.macros.isSome = s.compilation.macros.isSome

namespace Quiet

theorem refl (s : EngineState R I G) : s.Quiet s := ⟨rfl, rfl, rfl, rfl⟩

theorem trans {a b c : EngineState R I G} (h : a.Quiet b) (h' : b.Quiet c) : a.Quiet c where
  runtime := h'.runtime.trans h.runtime
  generation := h'.generation.trans h.generation
  stats := h'.stats.trans h.stats
  macros := h'.macros.trans h.macros

end Quiet

/-- The same, and whatever has failed, the runtime was not missing for it. -/
structure QuietEnd (s : EngineState R I G) (fault : Option Fault) (s' : EngineState R I G) : Prop
    extends Quiet s s' where
  served : ∀ f ∈ fault, ¬f.NoRuntime

namespace QuietEnd

variable {s s' : EngineState R I G}

theorem done (h : s.Quiet s') : s.QuietEnd none s' := ⟨h, by simp⟩

theorem failed {fault : Fault} (hfault : ¬fault.NoRuntime) (h : s.Quiet s') :
    s.QuietEnd (some fault) s' :=
  ⟨h, by simpa using hfault⟩

theorem trans {a b c : EngineState R I G} {fault fault' : Option Fault} (h : a.QuietEnd fault b)
    (h' : b.QuietEnd fault' c) : a.QuietEnd fault' c :=
  ⟨h.toQuiet.trans h'.toQuiet, h'.served⟩

end QuietEnd

end EngineState

open EngineState (Quiet QuietEnd)

namespace EngineM

variable {op : EngineM R I G α} {f : α → EngineM R I G β} {s s' : EngineState R I G}

/-! ## Parts of operations -/

theorem run_tryCatch (handler : Fault → EngineM R I G α) :
    (tryCatch op handler).run s =
      match op.run s with
      | (.ok a, s') => (.ok a, s')
      | (.error fault, s') => (handler fault).run s' := by
  simp only [tryCatch, tryCatchThe, MonadExceptOf.tryCatch, ExceptT.tryCatch, ExceptT.run,
    ExceptT.mk]
  change StateT.bind op _ s = _
  rcases hrun : op s with ⟨fault | a, s'⟩ <;>
    simp only [StateT.bind, hrun] <;> rfl

/-- However the operation ends, its fault and the state are related to the state it began in. -/
def Leads (rel : EngineState R I G → Option Fault → EngineState R I G → Prop)
    (op : EngineM R I G α) : Prop :=
  ∀ s, rel s (fault? (op.run s).1) (op.run s).2

/-- The operation touches neither the runtime nor any count, nor does it need the runtime. -/
def Still (op : EngineM R I G α) : Prop := Leads QuietEnd op

structure Chain (rel : EngineState R I G → Option Fault → EngineState R I G → Prop) : Prop where
  quiet : ∀ {s fault s'}, QuietEnd s fault s' → rel s fault s'
  trans : ∀ {a b c fault}, rel a none b → rel b fault c → rel a fault c

theorem chain_quiet : Chain (QuietEnd (R := R) (I := I) (G := G)) := ⟨id, .trans⟩

namespace Leads

variable {rel rel' : EngineState R I G → Option Fault → EngineState R I G → Prop}

theorem get {f : EngineState R I G → EngineM R I G α}
    (h : ∀ s, rel s (fault? ((f s).run s).1) ((f s).run s).2) : Leads rel (do f (← get)) := h

theorem seq (htrans : ∀ {a b c fault}, rel a none b → rel' b fault c → rel a fault c)
    (h : Leads rel op) (hf : ∀ a, Leads rel' (f a)) : Leads rel (op >>= f) := by
  intro s
  have hs := h s
  rcases hrun : op.run s with ⟨fault | a, s'⟩ <;> rw [hrun] at hs
  · rw [run_bind_error hrun]
    exact hs
  · rw [run_bind_ok hrun]
    exact htrans hs (hf a s')

/-- A relation that goes on from one part to the next holds for a list of parts. -/
theorem each (hstay : ∀ s, rel s none s)
    (htrans : ∀ {a b c fault}, rel a none b → rel b fault c → rel a fault c) (as : List α)
    {f : α → EngineM R I G PUnit} (hf : ∀ a, Leads rel (f a)) : Leads rel (as.forM f) := by
  induction as with
  | nil => exact hstay
  | cons a as ih => exact seq htrans (hf a) fun _ => ih

theorem all (hstay : ∀ s, rel s none s)
    (htrans : ∀ {a b c fault}, rel a none b → rel b fault c → rel a fault c) (as : List α)
    (hf : ∀ a, Leads rel (f a)) : Leads rel (as.mapM f) := by
  induction as with
  | nil => exact hstay
  | cons a as ih =>
    rw [List.mapM_cons]
    exact seq htrans (hf a) fun _ => seq htrans ih fun _ => hstay

/-- What is selected makes no difference to the relation. -/
theorem withMacroSelection
    (hselect : ∀ {s fault s'} selection selection',
      rel { s with engine := { s.engine with selection } } fault s' →
        rel s fault { s' with engine := { s'.engine with selection := selection' } })
    (h : Leads rel op) : Leads rel (withMacroSelection op) :=
  fun s => hselect .macros s.engine.selection (h _)

variable (hrel : Chain rel)
include hrel

theorem still (h : Still op) : Leads rel op := fun s => hrel.quiet (h s)

theorem pure (a : α) : Leads rel (pure a : EngineM R I G α) :=
  fun s => hrel.quiet (.done (.refl s))

theorem bind (h : Leads rel op) (hf : ∀ a, Leads rel (f a)) : Leads rel (op >>= f) :=
  Leads.seq hrel.trans h hf

theorem forM (as : List α) {f : α → EngineM R I G PUnit} (hf : ∀ a, Leads rel (f a)) :
    Leads rel (as.forM f) :=
  Leads.each (fun s => hrel.quiet (.done (.refl s))) hrel.trans as hf

theorem mapM (as : List α) (hf : ∀ a, Leads rel (f a)) : Leads rel (as.mapM f) :=
  Leads.all (fun s => hrel.quiet (.done (.refl s))) hrel.trans as hf

end Leads

/-! ## Operations that touch nothing -/

theorem still_pure (a : α) : Still (pure a : EngineM R I G α) := Leads.pure chain_quiet a

theorem still_throw {fault : Fault} (h : ¬fault.NoRuntime) :
    Still (throw fault : EngineM R I G α) :=
  fun s => .failed h (.refl s)

theorem still_fail {e : MacroError} (h : e.isFatal = false) : Still (fail e : EngineM R I G α) :=
  still_throw (Fault.not_noRuntime_of_isFatal h)

theorem still_noMacroContext : Still (fail noMacroContext : EngineM R I G α) :=
  still_throw (show "Macro context is not available" ≠ "No live macro runtime" by decide)

theorem Still.bind (h : Still op) (hf : ∀ a, Still (f a)) : Still (op >>= f) :=
  Leads.bind chain_quiet h hf

theorem quiet_set {f : PUnit → EngineM R I G α} (h : s.Quiet s') (hf : Still (f ⟨⟩)) :
    s.QuietEnd (fault? ((set s' >>= f).run s).1) ((set s' >>= f).run s).2 :=
  (QuietEnd.done h).trans (hf s')

theorem still_ofResult {result : Except MacroError α}
    (h : ∀ e, result = .error e → ¬(Fault.error e).NoRuntime) :
    Still (ofResult result : EngineM R I G α) := by
  cases result with
  | ok a => exact still_pure a
  | error e => exact still_throw (h e rfl)

theorem still_orReport (folder : DumpFolder) (v : Value) (expected : String) (pos : Position)
    (decoded : Decoded α) : Still (ofResult (decoded.orReport folder v expected pos) :
      EngineM R I G α) := by
  cases decoded with
  | ok a => exact still_pure a
  | faulty first others => exact still_fail rfl

theorem still_orFail (result : Except TypingError α) :
    Still (orFail result : EngineM R I G α) := by
  cases result with
  | ok a => exact still_pure a
  | error e => exact still_fail e.isFatal_toMacroError

theorem still_modifyEngine {f : Engine R → Engine R} (hruntime : ∀ e, (f e).runtime = e.runtime)
    (hgeneration : ∀ e, (f e).generation = e.generation) (hstats : ∀ e, (f e).stats = e.stats) :
    Still (modifyEngine f : EngineM R I G Unit) :=
  fun _ => .done ⟨hruntime _, hgeneration _, hstats _, rfl⟩

theorem still_modifyShared (f : Shared → Shared) : Still (modifyShared f : EngineM R I G Unit) :=
  fun _ => .done ⟨rfl, rfl, rfl, rfl⟩

theorem still_checkPrimary (op : Checking I G α) :
    Still (checkPrimary op : EngineM R I G (Except TypingError α)) :=
  fun _ => .done ⟨rfl, rfl, rfl, rfl⟩

theorem still_checkMacros (op : Checking I G α) :
    Still (checkMacros op : EngineM R I G (Except TypingError α)) := by
  refine Leads.get fun s => ?_
  cases h : s.compilation.macros with
  | none => exact still_noMacroContext s
  | some macros => exact .done ⟨rfl, rfl, rfl, by rw [h]; rfl⟩

variable (t : Typer I G)

theorem still_setMacroDisplay (display : Bool) :
    Still (setMacroDisplay t display : EngineM R I G Unit) := by
  refine Leads.get fun s => ?_
  cases h : s.compilation.macros with
  | none => exact still_noMacroContext s
  | some macros => exact .done ⟨rfl, rfl, rfl, by rw [h]; rfl⟩

theorem still_takeProduced : Still (takeProduced t : EngineM R I G (List ModuleId)) := by
  refine Leads.get fun s => ?_
  cases h : s.compilation.macros with
  | none => exact still_noMacroContext s
  | some macros => exact .done ⟨rfl, rfl, rfl, by rw [h]; rfl⟩

theorem still_flushModules : Still (flushModules t : EngineM R I G (List ModuleId)) := by
  refine (still_checkMacros _).bind fun completed => ?_
  cases completed with
  | error e =>
    refine still_throw (Fault.not_noRuntime_of_start ⟨'M', ?_, ?_⟩ _ _) <;> decide
  | ok u =>
    refine (still_takeProduced t).bind fun produced => ?_
    refine (still_modifyShared _).bind fun _ => ?_
    refine Leads.get fun s => ?_
    obtain ⟨w', error, hfails, hrun⟩ | ⟨w', -, -, hrun⟩ :=
      FilterPipeline.runOnModules_cases produced s.world
    · simp only [hrun]
      refine quiet_set ⟨rfl, rfl, rfl, rfl⟩ ((still_throw ?_).bind fun _ => still_pure _)
      exact hfails.not_noRuntime
    · simp only [hrun]
      exact quiet_set ⟨rfl, rfl, rfl, rfl⟩ (still_pure _)

theorem still_signatureIn (r : Reference) (id : ModuleId) (pos : Position) :
    Still (signatureIn r id pos : EngineM R I G (List TyParam × Ty)) := by
  refine Leads.get fun s => ?_
  cases s.world.module? id with
  | none => exact still_fail rfl s
  | some m =>
    exact still_ofResult (fun e he => Fault.not_noRuntime_of_isFatal (r.isFatal_signature he)) s

theorem still_loadMacroModule (r : Reference) (display : Bool) (pos : Position) :
    Still (loadMacroModule t r display pos : EngineM R I G (Except TypingError ModuleId)) := by
  unfold loadMacroModule
  split
  · refine Leads.get fun s => ?_
    refine Still.bind (still_setMacroDisplay t true) (fun _ => ?_) s
    refine (still_checkMacros _).bind fun loaded => ?_
    exact (still_setMacroDisplay t _).bind fun _ => still_pure loaded
  · exact still_checkMacros _

theorem still_resolveAnew (r : Reference) (display : Bool) (pos : Position) :
    Still (resolveAnew t r display pos : EngineM R I G Binding) := by
  refine (still_loadMacroModule t r display pos).bind fun loaded => ?_
  refine (still_orFail loaded).bind fun id => ?_
  refine (still_signatureIn r id pos).bind fun _ => ?_
  refine (still_checkMacros _).bind fun completed => ?_
  refine (still_orFail completed).bind fun _ => ?_
  refine (still_signatureIn r id pos).bind fun signature => ?_
  exact fun s => .done ⟨rfl, rfl, rfl, rfl⟩

theorem still_resolve (r : Reference) (display : Bool) (pos : Position) :
    Still (resolve t r display pos : EngineM R I G Binding) := by
  refine Leads.get fun s => ?_
  refine Still.bind (still_modifyEngine ?runtime ?generation ?stats) (fun _ => ?_) s
  case runtime | generation | stats => exact fun _ => rfl
  cases Entries.get? s.engine.cache.bindings r with
  | some binding => exact still_pure _
  | none => exact still_resolveAnew t r display pos

theorem still_returns (b : Binding) (expected : Ty) :
    Still (returns t b expected : EngineM R I G Bool) := by
  refine (still_checkMacros _).bind fun result => ?_
  cases result <;> exact still_pure _

theorem still_contract (b : Binding) (expected : Ty) {e : MacroError} (h : e.isFatal = false) :
    Still (do if !(← returns t b expected) then fail e : EngineM R I G Unit) := by
  refine (still_returns t b expected).bind fun r => ?_
  cases r
  · exact still_fail h
  · exact still_pure _

theorem still_checkContract (mode : CallMode) (b : Binding) (pos : Position) :
    Still (checkContract t mode b pos : EngineM R I G Unit) := by
  cases mode with
  | display => exact still_pure _
  | expr => exact still_contract t b _ rfl
  | build => exact still_contract t b _ rfl
  | type =>
    refine (still_returns t b _).bind fun r => ?_
    cases r
    · exact still_contract t b _ rfl
    · exact still_pure _

theorem still_classify (p : TyParam) : Still (classify t p : EngineM R I G ArgClass) := by
  refine (still_checkMacros _).bind fun result => ?_
  cases result <;> exact still_pure _

theorem still_readResult (mode : CallMode) (v : Value) (pos : Position) :
    Still (readResult t mode v pos : EngineM R I G CallResult) := by
  refine Leads.get fun s => ?_
  cases mode with
  | expr => exact (still_orReport _ _ _ _ _).bind (fun e => still_pure _) s
  | build =>
    cases v.isNull
    · exact (still_orReport _ _ _ _ _).bind (fun fields => still_pure _) s
    · exact still_pure _ s
  | type =>
    cases v.isNull with
    | true => exact .done ⟨rfl, rfl, rfl, rfl⟩
    | false =>
      rcases v.decodeComplexType with written | ⟨first, others⟩
      · refine (still_checkPrimary _).bind (fun loaded => ?_) s
        exact (still_orFail loaded).bind fun type => still_pure _
      · rcases v.decodeType with type | ⟨first', others'⟩
        · exact still_pure _ s
        · exact (still_orReport _ _ _ _ _).bind (fun _ => still_pure _) s
  | display => exact still_pure _ s

/-! ## Flushes -/

theorem run_whileFlushing :
    (whileFlushing op).run s =
      (.ok (op.run (s.withFlushing true)).1,
        (op.run (s.withFlushing true)).2.withFlushing false) := rfl

theorem run_flush_of_idle (h : s.Idle) : (flush t).run s = (.ok 0, s) := by
  have hidle : (s.compilation.shared.flushing || s.compilation.macros.isNone) = true := by
    rcases h with h | h <;> simp [h]
  refine (run_bind_ok rfl).trans ?_
  rw [if_pos hidle]
  rfl

theorem run_flush (h : ¬s.Idle) :
    (flush t).run s =
      match (flushModules t).run (s.withFlushing true) with
      | (.ok ids, s') => (.ok ids.length, (s'.withFlushing false).publishing ids)
      | (.error fault, s') => (.error fault, (s'.withFlushing false).invalidated) := by
  have hidle : ¬(s.compilation.shared.flushing || s.compilation.macros.isNone) = true := by
    unfold EngineState.Idle at h
    simpa using h
  refine (run_bind_ok rfl).trans ?_
  rw [if_neg hidle]
  refine (run_bind_ok run_whileFlushing).trans ?_
  rcases (flushModules t).run (s.withFlushing true) with ⟨fault | ids, s'⟩ <;> rfl

/-- A flush either touches nothing, or it fails and gives up the runtime. -/
theorem flush_cases (s : EngineState R I G) :
    (∃ n s', (flush t).run s = (.ok n, s') ∧ s.Quiet s') ∨
    ∃ fault s', (flush t).run s = (.error fault, s'.invalidated) ∧
      s.QuietEnd (some fault) s' := by
  by_cases hidle : s.Idle
  · exact .inl ⟨0, s, run_flush_of_idle t hidle, .refl s⟩
  have hquiet := still_flushModules t (s.withFlushing true)
  rw [run_flush t hidle]
  rcases hrun : (flushModules t).run (s.withFlushing true) with ⟨fault | ids, s'⟩ <;>
    rw [hrun] at hquiet
  · refine .inr ⟨fault, s'.withFlushing false, rfl, ?_, hquiet.served⟩
    exact ⟨hquiet.runtime, hquiet.generation, hquiet.stats, hquiet.macros⟩
  · refine .inl ⟨ids.length, (s'.withFlushing false).publishing ids, rfl, ?_⟩
    exact ⟨hquiet.runtime, hquiet.generation, hquiet.stats, hquiet.macros⟩

end EngineM

end HaxeMacro
