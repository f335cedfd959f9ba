import HaxeMacro.Proofs.Engine.Publication
import HaxeMacro.Proofs.Engine.Server

/-! # Relations that operations keep

What an operation does is put together from a few kinds of moves. A relation between states that
admits these moves, and goes on from one part of an operation to the next, holds between the states
before and after every operation.
-/

namespace HaxeMacro

variable {R I G α β : Type}

inductive Typer.Asks (t : Typer I G) : {α : Type} → Checking I G α → Prop
  | loadModule (path : Path) (pos : Position) : Asks t (t.loadModule path pos)
  | loadComplexType (type : ComplexType) (pos : Position) : Asks t (t.loadComplexType type pos)
  | unify (actual expected : Ty) : Asks t (t.unify actual expected)
  | typeExpr (e : Expr) (expected : Option Ty) : Asks t (t.typeExpr e expected)
  | matchArgs (args : List Expr) (params : List TyParam) (pos : Position) :
    Asks t (t.matchArgs args params pos)
  | finalize : Asks t t.finalize

/-- How a runtime is prepared for a compilation. -/
inductive Runtime.Prepares (rt : Runtime R I G) : Session I G → Session I G → Prop
  | init (state : R) (session : Session I G) :
    Prepares rt session (rt.init.run (state, session)).2.2
  | reuse (state : R) (session : Session I G) :
    Prepares rt session (rt.reuse.run (state, session)).2.2

/-- What is remembered of a method with a signature. -/
def Reference.bindingTo (r : Reference) (signature : List TyParam × Ty) : Binding :=
  ⟨signature.1, signature.2, r.type, r.method, r.module⟩

theorem Engine.exists_of_isLive {e : Engine R} (h : e.isLive = true) :
    ∃ live, e.runtime = some live ∧ live.handle.poisoned = false := by
  simpa [isLive, Option.any_eq_true] using h

def EngineRequest.Manages : EngineRequest → Prop
  | invalidate | invalidateModule _ | resetCache | select _ => True
  | _ => False

namespace EngineState

def counting (s : EngineState R I G) (found : Bool) : EngineState R I G :=
  { s with engine := { s.engine with cache := s.engine.cache.count found } }

def remembering (s : EngineState R I G) (r : Reference) (b : Binding) : EngineState R I G :=
  { s with engine := { s.engine with cache := s.engine.cache.insert r b } }

def mapShared (s : EngineState R I G) (f : Shared → Shared) : EngineState R I G :=
  { s with compilation := s.compilation.mapShared f }

/-- The module of the caller waits to depend on that of a macro. -/
def noting (s : EngineState R I G) (side : Side) (b : Binding) : EngineState R I G :=
  s.mapShared (·.record (s.compilation.moduleOf side) b.module .load)

def selecting (s : EngineState R I G) (selection : Selection) : EngineState R I G :=
  { s with engine := { s.engine with selection } }

def withoutMacros (s : EngineState R I G) : EngineState R I G :=
  { s with compilation := { s.compilation with macros := none } }

def withSession (s : EngineState R I G) (session : Session I G) : EngineState R I G :=
  { s with compilation := session.compilation, world := session.world }

def withPrimary (s : EngineState R I G) (primary : Scope I) (world : World G) :
    EngineState R I G :=
  { s with world, compilation := { s.compilation with primary } }

def forked (t : Typer I G) (s : EngineState R I G) : EngineState R I G :=
  let (macros, world) := s.compilation.primary.forkForMacros t s.world
  { s with
    world
    compilation := { s.compilation.mapReporter (·.intercept) with macros := some macros } }

/-- The moves that prepare a call: type checkers are asked, contexts and runtimes are made, and
modules are handed over. -/
inductive Move (t : Typer I G) (rt : Runtime R I G) :
    EngineState R I G → EngineState R I G → Prop
  | askPrimary {s} {α : Type} {op : Checking I G α} (hop : t.Asks op) :
    Move t rt s (s.withPrimary (s.compilation.primary.check op s.world).2.1
      (s.compilation.primary.check op s.world).2.2)
  | freshType (s) :
    Move t rt s (s.withPrimary (s.compilation.primary.use t.freshType s.world).2.1
      (s.compilation.primary.use t.freshType s.world).2.2)
  | takeProduced {s macros} (hmacros : s.compilation.macros = some macros) :
    Move t rt s (s.withMacros (macros.use t.takeProduced s.world).2.1
      (macros.use t.takeProduced s.world).2.2)
  | enter {s macros} (hmacros : s.compilation.macros = some macros) :
    Move t rt s (s.withMacros { macros with module := s.compilation.primary.module } s.world)
  | fork (s) : Move t rt s (s.forked t)
  | prepare {s session} {pos : Position} {name : String}
    (h : rt.Prepares ⟨s.compilation, s.world, pos, name⟩ session) :
    Move t rt s (s.withSession session)
  | count (s) (found : Bool) : Move t rt s (s.counting found)
  | commit (s) : Move t rt s (s.mapShared (·.commit))
  | publish (s) (ids : List ModuleId) : Move t rt s (s.publishing ids)
  | change {s} (world : World G) (hhost : world.host = s.world.host) :
    Move t rt s { s with world }
  | manage {s} (engine : Engine R) (hselection : engine.selection = s.engine.selection)
    (hcache : engine.cache = s.engine.cache)
    (hinvalidations : engine.stats.invalidations = s.engine.stats.invalidations) :
    Move t rt s { s with engine }

end EngineState

open EngineState (Move)

namespace EngineM

def findSignature (t : Typer I G) (r : Reference) (display : Bool) (pos : Position) :
    EngineM R I G (List TyParam × Ty) := do
  let id ← orFail (← loadMacroModule t r display pos)
  let _ ← signatureIn r id pos
  orFail (← checkMacros t.finalize)
  signatureIn r id pos

theorem resolveAnew_eq (t : Typer I G) (r : Reference) (display : Bool) (pos : Position) :
    (resolveAnew t r display pos : EngineM R I G Binding) = (do
      let signature ← findSignature t r display pos
      modifyEngine fun e => { e with cache := e.cache.insert r (r.bindingTo signature) }
      return r.bindingTo signature) := by
  simp only [resolveAnew, findSignature, bind_assoc]
  rfl

theorem run_resolve_of_known (t : Typer I G) {r : Reference} {b : Binding}
    {s : EngineState R I G} (h : Entries.get? s.engine.cache.bindings r = some b) (display : Bool)
    (pos : Position) : (resolve t r display pos).run s = (.ok b, s.counting true) := by
  refine (run_bind_ok rfl).trans ((run_bind_ok rfl).trans ?_)
  simp only [h]
  rfl

theorem run_resolve_of_unknown (t : Typer I G) {r : Reference} {s : EngineState R I G}
    (h : Entries.get? s.engine.cache.bindings r = none) (display : Bool) (pos : Position) :
    (resolve t r display pos).run s =
      (do
        let signature ← findSignature t r display pos
        modifyEngine fun e => { e with cache := e.cache.insert r (r.bindingTo signature) }
        return r.bindingTo signature : EngineM R I G Binding).run (s.counting false) := by
  refine (run_bind_ok rfl).trans ((run_bind_ok rfl).trans ?_)
  simp only [h, resolveAnew_eq]
  rfl

theorem run_withMacroSelection (op : EngineM R I G α) (s : EngineState R I G) :
    (withMacroSelection op).run s =
      ((op.run (s.selecting .macros)).1,
        (op.run (s.selecting .macros)).2.selecting s.engine.selection) := rfl

/-- The part of a load up to the binding. -/
def locate (t : Typer I G) (rt : Runtime R I G) (side : Side) (r : Reference) (display : Bool)
    (pos : Position) : EngineM R I G Binding := do
  if side = .program then
    let _ ← macroContext t rt
  resolve t r display pos

/-- The part of a load that notes the dependency, and hands over what is new. -/
def settle (t : Typer I G) (side : Side) (known : Bool) (b : Binding) : EngineM R I G Binding := do
  modifyCompilation fun c => c.mapShared (·.record (c.moduleOf side) b.module .load)
  if !known && side = .program then
    let _ ← flush t
  return b

/-- What is left of a load is done at once, or a flush decides how it ends. -/
theorem settle_cases (t : Typer I G) (side : Side) (known : Bool) (b : Binding)
    (s : EngineState R I G) :
    (settle t side known b).run s = (.ok b, s.noting side b) ∨
    (∃ n s', (flush t).run (s.noting side b) = (.ok n, s') ∧
      (settle t side known b).run s = (.ok b, s')) ∨
    ∃ fault s', (flush t).run (s.noting side b) = (.error fault, s') ∧
      (settle t side known b).run s = (.error fault, s') := by
  have hnext : (settle t side known b).run s =
      (do
        if !known && side = .program then
          let _ ← flush t
        return b : EngineM R I G Binding).run (s.noting side b) := rfl
  rw [hnext]
  split
  · rcases hrun : (flush t).run (s.noting side b) with ⟨fault | n, s'⟩
    · exact .inr (.inr ⟨fault, s', rfl, run_bind_error hrun⟩)
    · exact .inr (.inl ⟨n, s', rfl, run_bind_ok hrun⟩)
  · exact .inl rfl

theorem run_loadMacro (t : Typer I G) (rt : Runtime R I G) (side : Side) (r : Reference)
    (display : Bool) (pos : Position) (s : EngineState R I G) :
    (loadMacro t rt side r display pos).run s =
      (withMacroSelection do
        let b ← locate t rt side r display pos
        settle t side (Entries.has s.engine.cache.bindings r) b).run s := by
  cases side with
  | program =>
    simp only [locate, if_true, bind_assoc]
    rfl
  | macros => rfl

variable {op : EngineM R I G α} {f : α → EngineM R I G β} {t : Typer I G} {rt : Runtime R I G}
  {rel : EngineState R I G → Option Fault → EngineState R I G → Prop}

/-! ## Sequences -/

/-- The relation goes on from one part of an operation to the next. -/
structure Passing (rel : EngineState R I G → Option Fault → EngineState R I G → Prop) : Prop where
  stay : ∀ {s fault}, rel s fault s
  trans : ∀ {a b c fault}, rel a none b → rel b fault c → rel a fault c

namespace Passing

variable (h : Passing rel)
include h

theorem pure (a : α) : Leads rel (pure a : EngineM R I G α) := fun _ => h.stay

theorem throw (fault : Fault) : Leads rel (throw fault : EngineM R I G α) := fun _ => h.stay

theorem bind (hop : Leads rel op) (hf : ∀ a, Leads rel (f a)) : Leads rel (op >>= f) :=
  Leads.seq h.trans hop hf

theorem forM (as : List α) {f : α → EngineM R I G PUnit} (hf : ∀ a, Leads rel (f a)) :
    Leads rel (as.forM f) :=
  Leads.each (fun _ => h.stay) h.trans as hf

theorem mapM (as : List α) (hf : ∀ a, Leads rel (f a)) : Leads rel (as.mapM f) :=
  Leads.all (fun _ => h.stay) h.trans as hf

theorem ofResult (result : Except MacroError α) :
    Leads rel (ofResult result : EngineM R I G α) := by
  cases result with
  | ok a => exact h.pure a
  | error e => exact h.throw _

theorem orFail (result : Except TypingError α) :
    Leads rel (orFail result : EngineM R I G α) := by
  cases result with
  | ok a => exact h.pure a
  | error e => exact h.throw _

theorem signatureIn (r : Reference) (id : ModuleId) (pos : Position) :
    Leads rel (signatureIn r id pos : EngineM R I G (List TyParam × Ty)) := by
  refine Leads.get fun s => ?_
  cases s.world.module? id with
  | none => exact h.stay
  | some m => exact h.ofResult _ s

theorem findSignature {t : Typer I G} {r : Reference} {display : Bool} {pos : Position}
    (hload : Leads rel (loadMacroModule t r display pos : EngineM R I G _))
    (hfinalize : Leads rel (EngineM.checkMacros t.finalize : EngineM R I G _)) :
    Leads rel (findSignature t r display pos : EngineM R I G (List TyParam × Ty)) := by
  refine h.bind hload fun loaded => ?_
  refine h.bind (h.orFail loaded) fun id => h.bind (h.signatureIn r id pos) fun _ => ?_
  refine h.bind hfinalize fun completed => ?_
  exact h.bind (h.orFail completed) fun _ => h.signatureIn r id pos

theorem resolve {t : Typer I G} {r : Reference} {display : Bool} {pos : Position}
    (hcount : ∀ s found, rel s none (s.counting found))
    (hremember : ∀ s r b, rel s none (s.remembering r b))
    (hfind : Leads rel (EngineM.findSignature t r display pos : EngineM R I G _)) :
    Leads rel (resolve t r display pos) := by
  intro s
  cases hknown : Entries.get? s.engine.cache.bindings r with
  | some b =>
    rw [run_resolve_of_known t hknown]
    exact hcount s true
  | none =>
    rw [run_resolve_of_unknown t hknown]
    refine h.trans (hcount s false) (h.bind hfind (fun signature => ?_) _)
    exact fun s => hremember s r (r.bindingTo signature)

end Passing

/-! ## Asking the type checker for macros -/

/-- The relation admits questions to the type checker for macros. -/
structure Asking (t : Typer I G)
    (rel : EngineState R I G → Option Fault → EngineState R I G → Prop) : Prop
    extends Passing rel where
  ask : ∀ {s macros} {α : Type} {op : Checking I G α}, t.Asks op →
    s.compilation.macros = some macros →
    rel s none (s.withMacros (macros.check op s.world).2.1 (macros.check op s.world).2.2)
  display : ∀ {s macros} (display : Bool), s.compilation.macros = some macros →
    rel s none (s.withMacros (macros.setDisplay t display s.world).1
      (macros.setDisplay t display s.world).2)

namespace Asking

variable (h : Asking t rel)
include h

theorem checkMacros {op : Checking I G α} (hop : t.Asks op) :
    Leads rel (checkMacros op : EngineM R I G (Except TypingError α)) := by
  refine Leads.get fun s => ?_
  cases hmacros : s.compilation.macros with
  | none => exact h.stay
  | some macros => exact h.ask hop hmacros

theorem setMacroDisplay (display : Bool) :
    Leads rel (setMacroDisplay t display : EngineM R I G Unit) := by
  refine Leads.get fun s => ?_
  cases hmacros : s.compilation.macros with
  | none => exact h.stay
  | some macros => exact h.display display hmacros

theorem loadMacroModule (r : Reference) (display : Bool) (pos : Position) :
    Leads rel (loadMacroModule t r display pos : EngineM R I G (Except TypingError ModuleId)) := by
  have hload := h.checkMacros (.loadModule r.module pos)
  unfold EngineM.loadMacroModule
  split
  · refine Leads.get fun s => ?_
    refine h.bind (h.setMacroDisplay true) (fun _ => ?_) s
    exact h.bind hload fun loaded => h.bind (h.setMacroDisplay _) fun _ => h.pure loaded
  · exact hload

theorem findSignature (r : Reference) (display : Bool) (pos : Position) :
    Leads rel (findSignature t r display pos : EngineM R I G (List TyParam × Ty)) :=
  h.toPassing.findSignature (h.loadMacroModule r display pos) (h.checkMacros .finalize)

theorem resolve (hcount : ∀ s found, rel s none (s.counting found))
    (hremember : ∀ s r b, rel s none (s.remembering r b)) (r : Reference) (display : Bool)
    (pos : Position) : Leads rel (resolve t r display pos) :=
  h.toPassing.resolve hcount hremember (h.findSignature r display pos)

theorem returns (b : Binding) (expected : Ty) :
    Leads rel (returns t b expected : EngineM R I G Bool) := by
  refine h.bind (h.checkMacros (.unify _ _)) fun result => ?_
  cases result <;> exact h.pure _

theorem contract (b : Binding) (expected : Ty) (e : MacroError) :
    Leads rel (do if !(← EngineM.returns t b expected) then fail e : EngineM R I G Unit) := by
  refine h.bind (h.returns b expected) fun r => ?_
  cases r
  · exact h.throw _
  · exact h.pure _

theorem checkContract (mode : CallMode) (b : Binding) (pos : Position) :
    Leads rel (checkContract t mode b pos : EngineM R I G Unit) := by
  cases mode with
  | display => exact h.pure _
  | expr => exact h.contract b _ _
  | build => exact h.contract b _ _
  | type =>
    refine h.bind (h.returns b _) fun r => ?_
    cases r
    · exact h.contract b _ _
    · exact h.pure _

theorem classify (p : TyParam) : Leads rel (classify t p : EngineM R I G ArgClass) := by
  refine h.bind (h.checkMacros (.unify _ _)) fun result => ?_
  cases result <;> exact h.pure _

end Asking

/-! ## Preparing calls -/

/-- The relation admits all that happens before a macro is called. -/
structure Steady (t : Typer I G) (rt : Runtime R I G)
    (rel : EngineState R I G → Option Fault → EngineState R I G → Prop) : Prop
    extends Asking t rel where
  move : ∀ {s s'}, Move t rt s s' → rel s none s'
  flushed : ∀ {s fault s'}, s.compilation.shared.flushing = false →
    rel (s.withFlushing true) fault s' → rel s fault (s'.withFlushing false)
  invalidated : ∀ {s fault s'}, rel s (some fault) s' → rel s (some fault) s'.invalidated
  dropped : ∀ {s fault s'}, rel s (some fault) s' → rel s (some fault) s'.withoutMacros

namespace Steady

variable (h : Steady t rt rel)
include h

theorem set {s s' : EngineState R I G} {f : PUnit → EngineM R I G α} (hmove : Move t rt s s')
    (hf : Leads rel (f ⟨⟩)) :
    rel s (fault? ((set s' >>= f).run s).1) ((set s' >>= f).run s).2 :=
  h.trans (h.move hmove) (hf s')

theorem checkPrimary {op : Checking I G α} (hop : t.Asks op) :
    Leads rel (checkPrimary op : EngineM R I G (Except TypingError α)) :=
  fun _ => h.move (.askPrimary hop)

theorem takeProduced : Leads rel (takeProduced t : EngineM R I G (List ModuleId)) := by
  refine Leads.get fun s => ?_
  cases hmacros : s.compilation.macros with
  | none => exact h.stay
  | some macros => exact h.move (.takeProduced hmacros)

/-! ### Flushes -/

theorem flushModules : Leads rel (flushModules t : EngineM R I G (List ModuleId)) := by
  refine h.bind (h.checkMacros .finalize) fun completed => ?_
  cases completed with
  | error e => exact h.throw _
  | ok u =>
    refine h.bind h.takeProduced fun produced => ?_
    have hcommit : Leads rel (modifyShared (·.commit) : EngineM R I G Unit) :=
      fun s => h.move (.commit s)
    refine h.bind hcommit fun _ => Leads.get fun s => ?_
    exact h.set (.change _ (FilterPipeline.host_runOnModules _ _))
      (h.bind (h.ofResult _) fun _ => h.pure _)

theorem flush : Leads rel (flush t : EngineM R I G Nat) := by
  intro s
  by_cases hidle : s.Idle
  · rw [run_flush_of_idle t hidle]
    exact h.stay
  have hflushing : s.compilation.shared.flushing = false := by
    simpa using fun hflushing => hidle (.inl hflushing)
  have hmodules := h.flushModules (s.withFlushing true)
  rw [run_flush t hidle]
  rcases hrun : (EngineM.flushModules t).run (s.withFlushing true) with ⟨fault | ids, s'⟩ <;>
    rw [hrun] at hmodules
  · exact h.invalidated (h.flushed hflushing hmodules)
  · exact h.trans (h.flushed hflushing hmodules) (h.move (.publish _ ids))

/-! ### Contexts -/

theorem bootstrap : Leads rel (bootstrap t : EngineM R I G Unit) := by
  refine h.bind (h.forM _ fun path => ?_) fun _ => ?_
  · exact h.bind (h.checkMacros (.loadModule path .null)) fun loaded =>
      h.bind (h.orFail loaded) fun _ => h.pure _
  · have hcount : Leads rel (modifyStats fun stats =>
        { stats with bootstraps := stats.bootstraps + 1 } : EngineM R I G Unit) :=
      fun s => h.move (.manage _ rfl rfl rfl)
    exact h.bind hcount fun _ => h.bind h.flush fun _ => h.pure _

theorem initRuntime (generation : Nat) : Leads rel (initRuntime rt generation) := by
  refine Leads.get fun s => h.set (.prepare (.init _ _)) ?_
  split
  · exact fun s => h.move (.manage _ rfl rfl rfl)
  · exact h.throw _
  · exact h.throw _

theorem createRuntime : Leads rel (createRuntime t rt) := by
  intro s
  rw [run_createRuntime]
  refine h.trans (h.move (.manage _ ?_ ?_ ?_)) (h.bind h.bootstrap (fun _ => h.initRuntime _) _)
  all_goals rfl

theorem reuseRuntime (live : LiveRuntime R) : Leads rel (reuseRuntime rt live) := by
  refine Leads.get fun s => ?_
  let session : Session I G := ⟨s.compilation, s.world, .null, "<reuse>"⟩
  have hreused : rel s none (s.withSession (rt.reuse.run (live.state, session)).2.2) :=
    h.move (.prepare (.reuse live.state session))
  refine h.trans hreused (h.move (.manage _ ?_ ?_ ?_))
  all_goals rfl

theorem acquireRuntime : Leads rel (acquireRuntime t rt) := by
  intro s
  obtain ⟨live, -, -, hrun⟩ | hrun := run_acquireRuntime t rt s
  · rw [hrun]
    exact h.reuseRuntime live s
  · rw [hrun]
    exact h.createRuntime s

theorem createContext : Leads rel (createContext t rt) := by
  intro s
  let counted : EngineState R I G := { s with engine := s.engine.countContext }
  have hcounted : rel s none counted := h.move (.manage _ rfl rfl rfl)
  have hnext : (EngineM.createContext t rt).run s =
      (tryCatch (EngineM.acquireRuntime t rt) _).run (counted.forked t) :=
    (run_bind_ok rfl).trans ((run_bind_ok rfl).trans (run_bind_ok rfl))
  have hforked : rel s none (counted.forked t) := h.trans hcounted (h.move (.fork counted))
  have hacquired := h.acquireRuntime (counted.forked t)
  rw [hnext, run_tryCatch]
  rcases hrun : (EngineM.acquireRuntime t rt).run (counted.forked t) with ⟨fault | u, s'⟩ <;>
    rw [hrun] at hacquired
  · exact h.dropped (h.trans hforked hacquired)
  · exact h.trans hforked hacquired

theorem enterContext : Leads rel (enterContext : EngineM R I G (Scope I)) := by
  refine Leads.get fun s => ?_
  cases hmacros : s.compilation.macros with
  | none => exact h.stay
  | some macros => exact h.move (.enter hmacros)

theorem macroContext : Leads rel (macroContext t rt) := by
  intro s
  rw [run_macroContext]
  split
  · exact h.bind h.createContext (fun _ => h.enterContext) s
  · exact h.enterContext s

/-! ### Modules and results -/

theorem locate (hremember : ∀ s r b, rel s none (s.remembering r b)) (side : Side) (r : Reference)
    (display : Bool) (pos : Position) : Leads rel (locate t rt side r display pos) := by
  have hresolve := h.resolve (fun s found => h.move (.count s found)) hremember r display pos
  cases side with
  | program => exact h.bind h.macroContext fun _ => hresolve
  | macros => exact hresolve

theorem settle
    (hrecord : ∀ s source target reason, rel s none (s.mapShared (·.record source target reason)))
    (side : Side) (known : Bool) (b : Binding) : Leads rel (settle t side known b) := by
  intro s
  have hnoting : rel s none (s.noting side b) := hrecord s _ _ _
  have hflush := h.flush (s.noting side b)
  obtain hrun | ⟨n, s', hflushed, hrun⟩ | ⟨fault, s', hflushed, hrun⟩ :=
    settle_cases t side known b s
  · rw [hrun]
    exact hnoting
  all_goals
    rw [hflushed] at hflush
    rw [hrun]
    exact h.trans hnoting hflush

theorem loadMacro (hremember : ∀ s r b, rel s none (s.remembering r b))
    (hrecord : ∀ s source target reason, rel s none (s.mapShared (·.record source target reason)))
    (hselect : ∀ {s fault s'} selection selection',
      rel (s.selecting selection) fault s' → rel s fault (s'.selecting selection'))
    (side : Side) (r : Reference) (display : Bool) (pos : Position) :
    Leads rel (loadMacro t rt side r display pos) := by
  intro s
  rw [run_loadMacro]
  refine Leads.withMacroSelection hselect ?_ s
  exact h.bind (h.locate hremember side r display pos) fun b => h.settle hrecord side _ b

theorem restoreModule (module : Path) :
    Leads rel (restoreModule module : EngineM R I G (Option Nat)) := by
  refine Leads.get fun s => ?_
  cases Entries.get? s.compilation.shared.modules module with
  | none => exact h.pure _ s
  | some id =>
    cases hm : s.world.module? id with
    | none => simpa only [hm] using h.pure _ s
    | some m =>
      simp only [hm]
      exact h.set (.change _ rfl) (h.pure _)

theorem readResult (mode : CallMode) (v : Value) (pos : Position) :
    Leads rel (readResult t mode v pos : EngineM R I G CallResult) := by
  refine Leads.get fun s => ?_
  cases mode with
  | expr => exact h.bind (h.ofResult _) (fun e => h.pure _) s
  | build =>
    cases v.isNull
    · exact h.bind (h.ofResult _) (fun fields => h.pure _) s
    · exact h.pure _ s
  | type =>
    cases v.isNull with
    | true => exact h.move (.freshType s)
    | false =>
      rcases v.decodeComplexType with written | ⟨first, others⟩
      · refine h.bind (h.checkPrimary (.loadComplexType written pos)) (fun loaded => ?_) s
        exact h.bind (h.orFail loaded) fun type => h.pure _
      · rcases v.decodeType with type | ⟨first', others'⟩
        · exact h.pure _ s
        · exact h.bind (h.ofResult _) (fun _ => h.pure _) s
  | display => exact h.pure _ s

/-! ### Arguments -/

section Arguments

variable (heval : ∀ name pos e, Leads rel (withRuntime name pos (rt.evalExpr e)))
include heval

theorem evaluate (name : String) (pos : Position) (e : TypedExpr) :
    Leads rel (evaluate rt name pos e) :=
  h.bind (heval name pos e) fun _ => h.pure _

theorem marshalArg (name : String) (pos : Position) (args : List Expr) (p : TyParam)
    (kind : ArgClass) (matched : MatchedArg) :
    Leads rel (marshalArg t rt name pos args p kind matched) := by
  cases matched with
  | omitted => exact h.pure _
  | supplied index typed =>
    cases kind with
    | expression => exact h.pure _
    | evaluated => exact h.evaluate heval name pos typed
    | closure =>
      refine h.bind h.macroContext fun _ => h.bind (h.checkMacros (.typeExpr _ _)) fun result => ?_
      exact h.bind (h.orFail result) fun typed => h.evaluate heval name pos typed

theorem marshalArgs (name : String) (pos : Position) (args : List Expr)
    (params : List (TyParam × ArgClass)) (matched : List MatchedArg) :
    Leads rel (marshalArgs t rt name pos args params matched) := by
  induction params generalizing matched with
  | nil => exact h.pure []
  | cons p ps ih =>
    exact h.bind (h.marshalArg heval name pos args p.1 p.2 _) fun v =>
      h.bind (ih _) fun vs => h.pure _

end Arguments

end Steady

/-! ## Calls -/

def called (s : EngineState R I G) (name : String) (pos : Position) (live : LiveRuntime R)
    (action : Action R I G α) : EngineState R I G :=
  let ended := action.run (live.state, (beginCall s name pos).2)
  endCall s (beginCall s name pos).1 live ended.2.1 ended.2.2

/-- What a call gives for what the runtime gave. -/
def concludeCall (folder : DumpFolder) (name : String) (pos : Position) :
    Except RuntimeFailure α → EngineM R I G α
  | .ok a => pure a
  | .error (.exception payload) => fail (exceptionError folder name payload pos)
  | .error (.fatal message) => do
    invalidate
    fail (.fatal message pos)
  | .error (.stopped stop) => throw (.stopped stop)

theorem run_withRuntime {s : EngineState R I G} {live : LiveRuntime R}
    (hlive : s.engine.runtime = some live) (hhealthy : live.handle.poisoned = false)
    (name : String) (pos : Position) (action : Action R I G α) :
    (withRuntime name pos action).run s =
      (concludeCall s.compilation.primary.config.macros.dump name pos
        (action.run (live.state, (beginCall s name pos).2)).1).run
          (called s name pos live action) := by
  refine (run_bind_ok rfl).trans ?_
  simp only [hlive, hhealthy, called]
  rcases action.run (live.state, (beginCall s name pos).2) with
    ⟨(payload | message | stop) | value, state, session⟩ <;> rfl

theorem run_withRuntime_of_not_live {s : EngineState R I G} (h : s.engine.isLive = false)
    (name : String) (pos : Position) (action : Action R I G α) :
    (withRuntime name pos action).run s =
      (.error (.error (.fatal "No live macro runtime" pos)), s) := by
  refine (run_bind_ok rfl).trans ?_
  cases hlive : s.engine.runtime with
  | none => rfl
  | some live =>
    have hpoisoned : live.handle.poisoned = true := by
      simpa [Engine.isLive, hlive] using h
    simp only [hpoisoned, if_true]
    rfl

/-- The relation admits all that requests do. -/
structure Driving (t : Typer I G) (rt : Runtime R I G)
    (rel : EngineState R I G → Option Fault → EngineState R I G → Prop) : Prop
    extends Steady t rt rel where
  select : ∀ {s fault s'} selection selection',
    rel (s.selecting selection) fault s' → rel s fault (s'.selecting selection')
  load : ∀ side r display pos, Leads rel (loadMacro t rt side r display pos)
  call : ∀ {s live} name pos task, s.engine.runtime = some live → live.handle.poisoned = false →
    rel s none (called s name pos live (rt.perform task))

namespace Driving

variable (h : Driving t rt rel)
include h

theorem selected {op : EngineM R I G α} (hop : Leads rel op) : Leads rel (withMacroSelection op) :=
  Leads.withMacroSelection h.select hop

theorem withRuntime (name : String) (pos : Position) (task : RuntimeTask) :
    Leads rel (withRuntime name pos (rt.perform task)) := by
  intro s
  cases hlive : s.engine.isLive with
  | false =>
    rw [run_withRuntime_of_not_live hlive]
    exact h.stay
  | true =>
    obtain ⟨live, hruntime, hhealthy⟩ := Engine.exists_of_isLive hlive
    rw [run_withRuntime hruntime hhealthy]
    refine h.trans (h.call name pos task hruntime hhealthy) ?_
    rcases ((rt.perform task).run (live.state, (beginCall s name pos).2)).1 with
      (payload | message | stop) | value
    · exact h.stay
    · exact h.invalidated h.stay
    · exact h.stay
    · exact h.stay

theorem performCall (mode : CallMode) (r : Reference) (b : Binding) (args : List Expr)
    (pos : Position) : Leads rel (EngineM.call t rt mode r b args pos) := by
  refine h.bind h.macroContext fun _ => h.bind (h.mapM _ h.classify) fun classes => ?_
  refine h.bind (h.checkPrimary (.matchArgs _ _ _)) fun matched => ?_
  refine h.bind (h.orFail matched) fun matched => ?_
  have heval name pos e : Leads rel (EngineM.withRuntime name pos (rt.evalExpr e)) :=
    h.withRuntime name pos (.evalExpr e)
  refine h.bind (h.marshalArgs heval _ _ _ _ _) fun values => ?_
  refine h.bind (h.withRuntime _ _ (.callByPath _ _ _)) fun result => ?_
  cases result with
  | none => exact h.pure _
  | some v => exact h.readResult mode v pos

theorem invoke (side : Side) (mode : CallMode) (r : Reference) (args : List Expr)
    (pos : Position) : Leads rel (invoke t rt side mode r args pos) := by
  cases side with
  | macros => exact h.pure _
  | program =>
    refine h.selected (h.bind (h.load .program r _ pos) fun b => h.bind h.macroContext fun _ => ?_)
    refine h.bind (h.checkContract mode b pos) fun _ => ?_
    split
    · exact h.pure _
    · exact h.performCall mode r b args pos

theorem runInit (text : String) : Leads rel (runInit t rt text) := by
  unfold EngineM.runInit
  cases Expr.parse text .null with
  | error e => exact h.throw _
  | ok e =>
    refine h.bind (h.ofResult e.initCall) fun (r, args) => ?_
    dsimp only
    cases args.mapM Expr.constant with
    | error fault => exact h.throw fault
    | ok values =>
      refine h.selected (h.bind (h.load .program _ _ _) fun b => ?_)
      exact h.withRuntime _ _ (.callByPath _ _ _)

theorem runHooks (kind : HookKind) (args : List Value) : Leads rel (runHooks t rt kind args) := by
  refine Leads.get fun s => ?_
  dsimp only
  split
  · exact h.pure _ s
  · refine h.bind h.macroContext (fun _ => ?_) s
    refine h.bind (h.forM _ fun callback => ?_) fun _ => h.pure _
    exact h.bind (h.withRuntime _ _ (.callFunction _ _)) fun _ => h.pure _

theorem ignore {op : EngineM R I G α} (hop : Leads rel op) : Leads rel (do let _ ← op) :=
  h.bind hop fun _ => h.pure _

theorem operation (r : EngineRequest) (hmanaging : r.Manages → Leads rel (r.operation t rt)) :
    Leads rel (r.operation t rt) := by
  cases r with
  | context => exact h.ignore h.macroContext
  | loadMacro side r display pos => exact h.ignore (h.load side r display pos)
  | invoke side mode r args pos => exact h.ignore (h.invoke side mode r args pos)
  | runInit text => exact h.ignore (h.runInit text)
  | runHooks kind args => exact h.ignore (h.runHooks kind args)
  | flush => exact h.ignore h.flush
  | restoreModule module => exact h.ignore (h.restoreModule module)
  | invalidate | invalidateModule | resetCache | select => exact hmanaging trivial

end Driving

end EngineM

end HaxeMacro
