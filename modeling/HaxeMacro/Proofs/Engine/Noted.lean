import HaxeMacro.Proofs.Engine.Queued
import HaxeMacro.Proofs.Evaluator.Sessions

/-! # Dependencies that are noted

A dependency waits from the time at which it is noted until a flush makes it part of the graph.
Whatever else happens, it is not lost before the module that depends is forgotten.
-/

namespace HaxeMacro

variable {R I G : Type}

/-! ## Edges -/

def PendingEdge.Accepts (source target : Path) : Prop := source.isEmpty = false ∧ source ≠ target

theorem PendingEdge.mem_record {pending : List PendingEdge} {source target : Path}
    {reason : DependencyReason} {e : PendingEdge} :
    e ∈ record pending source target reason ↔
      e ∈ pending ∨ Accepts source target ∧ e = ⟨source, target, reason⟩ := by
  have hrefused : (source.isEmpty || source = target) = true ↔ ¬Accepts source target := by
    simp [Accepts, or_iff_not_imp_left]
  unfold record
  by_cases haccepts : Accepts source target
  · rw [if_neg (by rwa [hrefused, not_not])]
    by_cases hmem : ⟨source, target, reason⟩ ∈ pending
    · rw [if_pos hmem]
      exact ⟨.inl, fun h => h.elim id fun h => h.2 ▸ hmem⟩
    · simp [if_neg hmem, haccepts]
  · rw [if_pos (hrefused.mpr haccepts)]
    simp [haccepts]

theorem PendingEdge.nodup_record {pending : List PendingEdge} (h : pending.Nodup)
    (source target : Path) (reason : DependencyReason) :
    (record pending source target reason).Nodup := by
  unfold record
  split
  · exact h
  · split
    · exact h
    · rename_i hnew
      refine List.nodup_append.mpr ⟨h, List.pairwise_singleton _ _, fun e he e' he' => ?_⟩
      rw [List.mem_singleton.mp he']
      exact ne_of_mem_of_not_mem he hnew

namespace DependencyGraph

variable {g : DependencyGraph} {a b : Path}

theorem edge_add {source target : Path} (h : source ≠ target) (reason : DependencyReason) :
    (g.add source target reason).Edge a b ↔ g.Edge a b ∨ a = source ∧ b = target := by
  unfold Edge add
  rw [if_neg h]
  exact Adjacency.mem_of_link

theorem edge_commit {pending : List PendingEdge} (h : ∀ e ∈ pending, e.source ≠ e.target) :
    (commit pending g).Edge a b ↔
      g.Edge a b ∨ ∃ e ∈ pending, e.source = a ∧ e.target = b := by
  induction pending generalizing g with
  | nil => simp [commit]
  | cons e pending ih =>
    obtain ⟨he, hpending⟩ := List.forall_mem_cons.mp h
    rw [commit, List.foldl_cons, ← commit, ih hpending, edge_add he, or_assoc]
    simp [eq_comm]

end DependencyGraph

/-! ## States -/

namespace EngineState

/-- No edge waits twice, and no module waits to depend on itself. -/
structure Orderly (s : EngineState R I G) : Prop where
  nodup : s.compilation.shared.pending.Nodup
  loopless : ∀ e ∈ s.compilation.shared.pending, e.source ≠ e.target

/-- What is noted stays noted, and nothing else is. -/
structure SameNotes (s s' : EngineState R I G) : Prop where
  orderly : s.Orderly → s'.Orderly
  noted : s.Orderly → ∀ a b, s'.Noted a b ↔ s.Noted a b

structure KeepsNotes (s s' : EngineState R I G) : Prop extends SameNotes s s' where
  module : s'.compilation.primary.module = s.compilation.primary.module

/-- An edge is noted unless it is refused, and nothing else is. -/
structure Notes (source target : Path) (s s' : EngineState R I G) : Prop where
  orderly : s.Orderly → s'.Orderly
  noted : s.Orderly → ∀ a b, s'.Noted a b ↔
    s.Noted a b ∨ PendingEdge.Accepts source target ∧ a = source ∧ b = target

def NotesAny (s : EngineState R I G) : Option (Path × Path) → EngineState R I G → Prop
  | none, s' => s.SameNotes s'
  | some (source, target), s' => s.Notes source target s'

variable {s s' : EngineState R I G}

theorem NotesAny.noted {edge : Option (Path × Path)} (h : s.NotesAny edge s') (hs : s.Orderly)
    (a b : Path) :
    s'.Noted a b ↔ s.Noted a b ∨ edge = some (a, b) ∧ PendingEdge.Accepts a b := by
  rcases edge with _ | ⟨source, target⟩
  · simpa using SameNotes.noted h hs a b
  · refine (Notes.noted h hs a b).trans (or_congr_right ⟨?_, ?_⟩)
    · rintro ⟨haccepts, rfl, rfl⟩
      exact ⟨rfl, haccepts⟩
    · rintro ⟨hedge, haccepts⟩
      cases hedge
      exact ⟨haccepts, rfl, rfl⟩

theorem NotesAny.orderly {edge : Option (Path × Path)} (h : s.NotesAny edge s')
    (hs : s.Orderly) : s'.Orderly := by
  cases edge with
  | none => exact SameNotes.orderly h hs
  | some _ => exact Notes.orderly h hs

theorem sameNotes_of_eq (hpending : s'.compilation.shared.pending = s.compilation.shared.pending)
    (hgraph : s'.graph = s.graph) : s.SameNotes s' where
  orderly hs := ⟨by rw [hpending]; exact hs.nodup, by rw [hpending]; exact hs.loopless⟩
  noted _ a b := by rw [Noted, Noted, hpending, hgraph]

theorem keepsNotes_of_eq (hpending : s'.compilation.shared.pending = s.compilation.shared.pending)
    (hgraph : s'.graph = s.graph)
    (hmodule : s'.compilation.primary.module = s.compilation.primary.module) : s.KeepsNotes s' :=
  ⟨sameNotes_of_eq hpending hgraph, hmodule⟩

theorem SameNotes.trans {a b c : EngineState R I G} (h : a.SameNotes b) (h' : b.SameNotes c) :
    a.SameNotes c where
  orderly ha := h'.orderly (h.orderly ha)
  noted ha p q := (h'.noted (h.orderly ha) p q).trans (h.noted ha p q)

theorem KeepsNotes.trans {a b c : EngineState R I G} (h : a.KeepsNotes b) (h' : b.KeepsNotes c) :
    a.KeepsNotes c :=
  ⟨h.toSameNotes.trans h'.toSameNotes, h'.module.trans h.module⟩

theorem SameNotes.trans_notes {a b c : EngineState R I G} {source target : Path}
    (h : a.SameNotes b) (h' : b.Notes source target c) : a.Notes source target c where
  orderly ha := h'.orderly (h.orderly ha)
  noted ha p q := (h'.noted (h.orderly ha) p q).trans (or_congr_left (h.noted ha p q))

theorem Notes.trans_same {a b c : EngineState R I G} {source target : Path}
    (h : a.Notes source target b) (h' : b.SameNotes c) : a.Notes source target c where
  orderly ha := h'.orderly (h.orderly ha)
  noted ha p q := (h'.noted (h.orderly ha) p q).trans (h.noted ha p q)

theorem keepsNotes_commit (s : EngineState R I G) : s.KeepsNotes (s.mapShared (·.commit)) where
  orderly _ := ⟨List.nodup_nil, fun _ he => absurd he List.not_mem_nil⟩
  noted hs a b := by
    have hgraph : (s.mapShared (·.commit)).graph =
        DependencyGraph.commit s.compilation.shared.pending s.graph := rfl
    have hpending : (s.mapShared (·.commit)).compilation.shared.pending = [] := rfl
    rw [Noted, Noted, hgraph, hpending, DependencyGraph.edge_commit hs.loopless]
    simp
  module := rfl

theorem notes_record (source target : Path) (reason : DependencyReason)
    (hpending : s'.compilation.shared.pending =
      PendingEdge.record s.compilation.shared.pending source target reason)
    (hgraph : s'.graph = s.graph) : s.Notes source target s' where
  orderly hs := by
    refine ⟨by rw [hpending]; exact PendingEdge.nodup_record hs.nodup _ _ _, fun e he => ?_⟩
    rw [hpending, PendingEdge.mem_record] at he
    obtain he | ⟨haccepts, rfl⟩ := he
    · exact hs.loopless e he
    · exact haccepts.2
  noted _ a b := by
    have hwaiting : (∃ e ∈ s'.compilation.shared.pending, e.source = a ∧ e.target = b) ↔
        (∃ e ∈ s.compilation.shared.pending, e.source = a ∧ e.target = b) ∨
          PendingEdge.Accepts source target ∧ a = source ∧ b = target := by
      simp only [hpending, PendingEdge.mem_record]
      constructor
      · rintro ⟨e, he | ⟨haccepts, rfl⟩, rfl, rfl⟩
        · exact .inl ⟨e, he, rfl, rfl⟩
        · exact .inr ⟨haccepts, rfl, rfl⟩
      · rintro (⟨e, he, h⟩ | ⟨haccepts, rfl, rfl⟩)
        · exact ⟨e, .inl he, h⟩
        · exact ⟨_, .inr ⟨haccepts, rfl⟩, rfl, rfl⟩
    rw [Noted, Noted, hgraph, hwaiting, or_assoc]

end EngineState

open EngineState (KeepsNotes Notes Move)

/-- Preparing the runtime leaves the dependencies and the program as they are. -/
structure Runtime.KeepsDependencies (rt : Runtime R I G) : Prop where
  pending : ∀ {session session' : Session I G}, rt.Prepares session session' →
    session'.compilation.shared.pending = session.compilation.shared.pending
  graph : ∀ {session session' : Session I G}, rt.Prepares session session' →
    session'.compilation.shared.graph = session.compilation.shared.graph
  module : ∀ {session session' : Session I G}, rt.Prepares session session' →
    session'.compilation.primary.module = session.compilation.primary.module

theorem NativeRuntime.keepsDependencies (natives : Natives I G) (failures : InitFailures)
    (steps : Nat) : (make natives failures steps).KeepsDependencies where
  pending h := by rw [prepares_make h]
  graph h := by rw [prepares_make h]
  module h := by rw [prepares_make h]

namespace EngineM

variable {t : Typer I G} {rt : Runtime R I G}

theorem steady_keepsNotes (hrt : rt.KeepsDependencies) :
    Steady t rt (fun s _ s' => s.KeepsNotes s') where
  stay := EngineState.keepsNotes_of_eq rfl rfl rfl
  trans := .trans
  ask _ _ := EngineState.keepsNotes_of_eq rfl rfl rfl
  display _ _ := EngineState.keepsNotes_of_eq rfl rfl rfl
  move h := by
    cases h with
    | prepare h => exact EngineState.keepsNotes_of_eq (hrt.pending h) (hrt.graph h) (hrt.module h)
    | commit => exact EngineState.keepsNotes_commit _
    | _ => exact EngineState.keepsNotes_of_eq rfl rfl rfl
  flushed := by
    intro s fault s' _ h
    have hbegun : s.KeepsNotes (s.withFlushing true) := EngineState.keepsNotes_of_eq rfl rfl rfl
    exact (hbegun.trans h).trans (EngineState.keepsNotes_of_eq rfl rfl rfl)
  invalidated h := h.trans (EngineState.keepsNotes_of_eq rfl rfl rfl)
  dropped h := h.trans (EngineState.keepsNotes_of_eq rfl rfl rfl)

end EngineM

/-! ## Steps -/

/-- What may happen to the dependencies of a compilation. Macro code asks for modules when it runs,
the compiler goes on with the program at any time. -/
inductive DependencyStep (I G : Type) where
  | load (side : Side) (r : Reference) (display : Bool) (pos : Position)
  | define (path : Path) (definitions : List TypeDefinition) (pos : Position) (macroName : String)
  | includes (path : Path) (pos : Position) (macroName : String)
  | commit
  | flush
  | forget (module : Path)
  | compile (work : Scope I → World G → Scope I × World G)

namespace DependencyStep

variable (t : Typer I G) (rt : Runtime R I G) (s : EngineState R I G)

def apply : DependencyStep I G → EngineState R I G
  | load side r display pos => ((EngineM.loadMacro t rt side r display pos).run s).2
  | define path definitions pos macroName =>
    s.withSession ((Request.defineModule t path definitions).run
      ⟨s.compilation, s.world, pos, macroName⟩).2
  | includes path pos macroName =>
    s.withSession ((Request.includeModule t path).run ⟨s.compilation, s.world, pos, macroName⟩).2
  | commit => s.mapShared (·.commit)
  | flush => ((EngineM.flush t).run s).2
  | forget module => ((EngineM.invalidateModule module).run s).2
  | compile work =>
    let (primary, world) := work s.compilation.primary s.world
    s.withPrimary primary world

def run (steps : List (DependencyStep I G)) : EngineState R I G :=
  steps.foldl (fun s step => step.apply t rt s) s

/-- The edge that a step asks for: from the module of the caller to the one that was loaded, defined
or included. A step that fails before asks for none. -/
def edge? : DependencyStep I G → Option (Path × Path)
  | load side r display pos =>
    ((EngineM.locate t rt side r display pos).run (s.selecting .macros)).1.toOption.map fun b =>
      (s.compilation.moduleOf side, b.module)
  | define path definitions pos macroName =>
    ((Request.defineModule t path definitions).run
      ⟨s.compilation, s.world, pos, macroName⟩).1.toOption.map fun _ =>
        (s.compilation.primary.module, path)
  | includes path pos macroName =>
    ((Request.includeModule t path).run
      ⟨s.compilation, s.world, pos, macroName⟩).1.toOption.map fun _ =>
        (s.compilation.primary.module, path)
  | commit | flush | forget _ | compile _ => none

/-- The step notes that `a` depends on `b`. -/
def Records (step : DependencyStep I G) (a b : Path) : Prop :=
  step.edge? t rt s = some (a, b) ∧ PendingEdge.Accepts a b

/-- The step forgets a module on which `a` depends, or `a` itself. -/
def Discards (a : Path) : DependencyStep I G → Prop
  | forget module => a = module ∨ s.graph.Reaches a module
  | _ => False

end DependencyStep

/-! ## What steps note -/

namespace EngineM

variable {t : Typer I G} {rt : Runtime R I G} (hrt : rt.KeepsDependencies)

theorem asking_moduleOf : Asking t fun (s : EngineState R I G) _ s' =>
    s'.compilation.moduleOf .macros = s.compilation.moduleOf .macros where
  stay := rfl
  trans h h' := h'.trans h
  ask _ hmacros := by
    simp only [Compilation.moduleOf, hmacros]
    rfl
  display _ hmacros := by
    simp only [Compilation.moduleOf, hmacros]
    rfl

include hrt

theorem keepsNotes_locate (side : Side) (r : Reference) (display : Bool) (pos : Position)
    (s : EngineState R I G) :
    s.KeepsNotes ((locate t rt side r display pos).run s).2 :=
  (steady_keepsNotes hrt).locate (fun _ _ _ => EngineState.keepsNotes_of_eq rfl rfl rfl)
    side r display pos s

theorem moduleOf_locate (side : Side) (r : Reference) (display : Bool) (pos : Position)
    (s : EngineState R I G) :
    ((locate t rt side r display pos).run s).2.compilation.moduleOf side =
      s.compilation.moduleOf side := by
  cases side with
  | program => exact (keepsNotes_locate hrt .program r display pos s).module
  | macros => exact asking_moduleOf.resolve (fun _ _ => rfl) (fun _ _ _ => rfl) r display pos s

theorem notes_settle (side : Side) (known : Bool) (b : Binding) (s : EngineState R I G) :
    s.Notes (s.compilation.moduleOf side) b.module ((settle t side known b).run s).2 := by
  have hnoted : s.Notes (s.compilation.moduleOf side) b.module (s.noting side b) :=
    EngineState.notes_record _ _ .load rfl rfl
  have hflushed := (steady_keepsNotes (t := t) hrt).flush (s.noting side b)
  obtain hrun | ⟨n, s', hflush, hrun⟩ | ⟨fault, s', hflush, hrun⟩ := settle_cases t side known b s
  · rw [hrun]
    exact hnoted
  all_goals
    rw [hflush] at hflushed
    rw [hrun]
    exact hnoted.trans_same hflushed.toSameNotes

omit hrt in
theorem eq_of_settle {side : Side} {known : Bool} {b b' : Binding} {s : EngineState R I G}
    (h : ((settle t side known b).run s).1 = .ok b') : b = b' := by
  obtain hrun | ⟨n, s', -, hrun⟩ | ⟨fault, s', -, hrun⟩ := settle_cases t side known b s
  all_goals
    rw [hrun] at h
    cases h
  · rfl
  · rfl

omit hrt in
theorem fst_locate_of_loadMacro {side : Side} {r : Reference} {display : Bool} {pos : Position}
    {b : Binding} {s s' : EngineState R I G}
    (h : (loadMacro t rt side r display pos).run s = (.ok b, s')) :
    ((locate t rt side r display pos).run (s.selecting .macros)).1 = .ok b := by
  rw [run_loadMacro, run_withMacroSelection] at h
  have hend := congrArg Prod.fst h
  rcases hrun : (locate t rt side r display pos).run (s.selecting .macros) with ⟨fault | b', s₁⟩
  · rw [run_bind_error hrun] at hend
    cases hend
  · rw [run_bind_ok hrun] at hend
    rw [eq_of_settle hend]

theorem notes_loadMacro (side : Side) (r : Reference) (display : Bool) (pos : Position)
    (s : EngineState R I G) :
    s.NotesAny
      (((locate t rt side r display pos).run (s.selecting .macros)).1.toOption.map fun b =>
        (s.compilation.moduleOf side, b.module))
      ((loadMacro t rt side r display pos).run s).2 := by
  have hkept := keepsNotes_locate (t := t) hrt side r display pos (s.selecting .macros)
  have hmodule := moduleOf_locate (t := t) hrt side r display pos (s.selecting .macros)
  have hbegun : s.SameNotes (s.selecting .macros) := EngineState.sameNotes_of_eq rfl rfl
  have hend (s' : EngineState R I G) : s'.SameNotes (s'.selecting s.engine.selection) :=
    EngineState.sameNotes_of_eq rfl rfl
  rw [run_loadMacro, run_withMacroSelection]
  rcases hrun : (locate t rt side r display pos).run (s.selecting .macros) with ⟨fault | b, s'⟩ <;>
    rw [hrun] at hkept hmodule
  · rw [run_bind_error hrun]
    exact (hbegun.trans hkept.toSameNotes).trans (hend s')
  · rw [run_bind_ok hrun]
    have hsettled := notes_settle (t := t) hrt side (Entries.has s.engine.cache.bindings r) b s'
    rw [hmodule] at hsettled
    exact ((hbegun.trans hkept.toSameNotes).trans_notes hsettled).trans_same (hend _)

end EngineM

namespace Request

variable {α : Type}

theorem run_check (op : Checking I G α) (s : Session I G) :
    ∃ result s', (check op).run s = (result, s') ∧
      s'.compilation.shared = s.compilation.shared ∧
      s'.compilation.primary.module = s.compilation.primary.module := by
  have hnext : (check op).run s = _ := run_bind_ok rfl
  rw [hnext]
  rcases hrun : s.compilation.primary.check op s.world with ⟨e | a, primary, world⟩
  · exact ⟨_, _, rfl, rfl, congrArg (fun ended => ended.2.1.module) hrun.symm⟩
  · exact ⟨_, _, rfl, rfl, congrArg (fun ended => ended.2.1.module) hrun.symm⟩

def Asks (s : EngineState R I G) (source target : Path)
    (ended : Except MacroError α × Session I G) : Prop :=
  s.NotesAny (ended.1.toOption.map fun _ => (source, target)) (s.withSession ended.2)

def Finishes (op : Request I G α) (target : Path) : Prop :=
  ∀ s, ∃ a s' reason, op.run s = (.ok a, s') ∧
    s'.compilation.shared.pending =
      PendingEdge.record s.compilation.shared.pending s.compilation.primary.module target reason ∧
    s'.compilation.shared.graph = s.compilation.shared.graph

theorem asks_check {β : Type} {op : Checking I G α} {f : α → Request I G β} {target : Path}
    (hf : ∀ a, (f a).Finishes target) {s : EngineState R I G} {session : Session I G}
    (hsession : session.compilation = s.compilation) :
    Asks s s.compilation.primary.module target ((check op >>= f).run session) := by
  obtain ⟨result, session₁, hcheck, hshared, hmodule⟩ := run_check op session
  rw [hsession] at hshared hmodule
  cases result with
  | error e =>
    rw [run_bind_error hcheck]
    exact EngineState.sameNotes_of_eq (congrArg Shared.pending hshared)
      (congrArg Shared.graph hshared)
  | ok a =>
    obtain ⟨b, session₂, reason, hrun, hpending, hgraph⟩ := hf a session₁
    rw [run_bind_ok hcheck, hrun]
    rw [hshared, hmodule] at hpending
    exact EngineState.notes_record _ _ reason hpending
      (hgraph.trans (congrArg Shared.graph hshared))

variable (t : Typer I G) (path : Path) {s : EngineState R I G} {session : Session I G}
  (hsession : session.compilation = s.compilation)
include hsession

theorem asks_defineModule (definitions : List TypeDefinition) :
    Asks s s.compilation.primary.module path ((defineModule t path definitions).run session) := by
  have hnext : (defineModule t path definitions).run session = _ := run_bind_ok rfl
  rw [hnext]
  split
  · exact EngineState.sameNotes_of_eq (congrArg (·.shared.pending) hsession)
      (congrArg (·.shared.graph) hsession)
  · refine asks_check (fun id => ?_) hsession
    exact fun s => ⟨id, _, .define, rfl, rfl, rfl⟩

theorem asks_includeModule :
    Asks s s.compilation.primary.module path ((includeModule t path).run session) := by
  have hnext : (includeModule t path).run session = _ := run_bind_ok rfl
  rw [hnext]
  refine asks_check (fun id s => ?_) hsession
  -- Publishing the module leaves the dependencies alone.
  have hpublished : ∀ shared : Shared, ∀ published : Bool,
      (if published then shared
        else { shared with modules := Entries.set shared.modules path id }).pending =
          shared.pending ∧
      (if published then shared
        else { shared with modules := Entries.set shared.modules path id }).graph =
          shared.graph := by
    intro shared published
    cases published <;> exact ⟨rfl, rfl⟩
  obtain ⟨hpending, hgraph⟩ := hpublished s.compilation.shared
    (Entries.has s.compilation.shared.modules path)
  exact ⟨⟨⟩, _, .includes, rfl, congrArg (PendingEdge.record · _ _ _) hpending, hgraph⟩

end Request

namespace DependencyStep

variable {t : Typer I G} {rt : Runtime R I G} {s : EngineState R I G}

theorem orderly_forget (hs : s.Orderly) (module : Path) :
    ((EngineM.invalidateModule module).run s).2.Orderly := by
  rw [EngineM.run_invalidateModule]
  exact ⟨hs.nodup.sublist List.filter_sublist,
    fun e he => hs.loopless e (List.mem_of_mem_filter he)⟩

theorem noted_forget (module a b : Path) :
    ((EngineM.invalidateModule module).run s).2.Noted a b ↔
      s.Noted a b ∧ ¬(a = module ∨ s.graph.Reaches a module) := by
  have hloses := s.graph.loses_invalidates (EngineM.affectedBy s.graph module)
  have hwaiting : (∃ e ∈ s.compilation.shared.pending.filter
      (·.source ∉ EngineM.affectedBy s.graph module), e.source = a ∧ e.target = b) ↔
        (∃ e ∈ s.compilation.shared.pending, e.source = a ∧ e.target = b) ∧
          a ∉ EngineM.affectedBy s.graph module := by
    simp only [List.mem_filter, decide_eq_true_eq]
    constructor
    · rintro ⟨e, ⟨he, hkept⟩, rfl, rfl⟩
      exact ⟨⟨e, he, rfl, rfl⟩, hkept⟩
    · rintro ⟨⟨e, he, rfl, rfl⟩, hkept⟩
      exact ⟨e, ⟨he, hkept⟩, rfl, rfl⟩
  rw [← (affects_affectedBy s.graph module).2 a, EngineM.run_invalidateModule]
  refine (or_congr hloses.edge_iff hwaiting).trans ?_
  rw [EngineState.Noted, or_and_right]

variable (hrt : rt.KeepsDependencies)
include hrt

theorem notes_apply (step : DependencyStep I G) (hstep : ∀ a, ¬step.Discards s a) :
    s.NotesAny (step.edge? t rt s) (step.apply t rt s) := by
  cases step with
  | load side r display pos => exact EngineM.notes_loadMacro hrt side r display pos s
  | define path definitions pos macroName => exact Request.asks_defineModule t path rfl definitions
  | includes path pos macroName => exact Request.asks_includeModule t path rfl
  | commit => exact (EngineState.keepsNotes_commit s).toSameNotes
  | flush => exact ((EngineM.steady_keepsNotes hrt).flush s).toSameNotes
  | forget module => exact absurd (.inl rfl) (hstep module)
  | compile work => exact EngineState.sameNotes_of_eq rfl rfl

theorem orderly_apply (hs : s.Orderly) (step : DependencyStep I G) :
    (step.apply t rt s).Orderly := by
  cases step with
  | forget module => exact orderly_forget hs module
  | _ => exact (notes_apply hrt _ fun _ => id).orderly hs

/-- After a step exactly those dependencies are noted that it records or does not discard. -/
theorem noted_apply (hs : s.Orderly) (step : DependencyStep I G) (a b : Path) :
    (step.apply t rt s).Noted a b ↔
      step.Records t rt s a b ∨ s.Noted a b ∧ ¬step.Discards s a := by
  cases step with
  | forget module => exact (noted_forget module a b).trans (by simp [Records, edge?, Discards])
  | _ =>
    refine ((notes_apply hrt _ fun _ => id).noted hs a b).trans ?_
    simp [Records, Discards, or_comm]

end DependencyStep

/-! ## Runs -/

namespace DependencyStep

variable (t : Typer I G) (rt : Runtime R I G) (s : EngineState R I G)

/-- No step forgets the module or one on which it depends at that time. -/
def Survives (steps : List (DependencyStep I G)) (a : Path) : Prop :=
  ∀ before step after, steps = before ++ step :: after → ¬step.Discards (run t rt s before) a

/-- A step has recorded the edge, and no later step discards it. -/
def Outstanding (steps : List (DependencyStep I G)) (a b : Path) : Prop :=
  ∃ before step after, steps = before ++ step :: after ∧
    step.Records t rt (run t rt s before) a b ∧
    Survives t rt (step.apply t rt (run t rt s before)) after a

theorem survives_cons (step : DependencyStep I G) (steps : List (DependencyStep I G)) (a : Path) :
    Survives t rt s (step :: steps) a ↔
      ¬step.Discards s a ∧ Survives t rt (step.apply t rt s) steps a := by
  constructor
  · intro h
    refine ⟨h [] step steps rfl, fun before later after hsteps => ?_⟩
    exact h (step :: before) later after (by rw [hsteps]; rfl)
  · rintro ⟨hfirst, hrest⟩ before later after hsteps
    obtain ⟨rfl, hcons⟩ | ⟨before, rfl, hrest'⟩ := List.cons_eq_append_iff.mp hsteps
    · cases hcons
      exact hfirst
    · exact hrest before later after hrest'

theorem outstanding_cons (step : DependencyStep I G) (steps : List (DependencyStep I G))
    (a b : Path) :
    Outstanding t rt s (step :: steps) a b ↔
      step.Records t rt s a b ∧ Survives t rt (step.apply t rt s) steps a ∨
        Outstanding t rt (step.apply t rt s) steps a b := by
  constructor
  · rintro ⟨before, recording, after, hsteps, hrecords, hsurvives⟩
    obtain ⟨rfl, hcons⟩ | ⟨before, rfl, hrest⟩ := List.cons_eq_append_iff.mp hsteps
    · cases hcons
      exact .inl ⟨hrecords, hsurvives⟩
    · exact .inr ⟨before, recording, after, hrest, hrecords, hsurvives⟩
  · rintro (⟨hrecords, hsurvives⟩ | ⟨before, recording, after, rfl, h⟩)
    · exact ⟨[], step, steps, rfl, hrecords, hsurvives⟩
    · exact ⟨step :: before, recording, after, rfl, h⟩

variable {t rt s} (hrt : rt.KeepsDependencies)
include hrt

theorem orderly_run (hs : s.Orderly) (steps : List (DependencyStep I G)) :
    (run t rt s steps).Orderly := by
  induction steps generalizing s with
  | nil => exact hs
  | cons step steps ih => exact ih (orderly_apply hrt hs step)

theorem noted_run (hs : s.Orderly) (steps : List (DependencyStep I G)) (a b : Path) :
    (run t rt s steps).Noted a b ↔
      Outstanding t rt s steps a b ∨ s.Noted a b ∧ Survives t rt s steps a := by
  induction steps generalizing s with
  | nil => simp [run, Outstanding, Survives]
  | cons step steps ih =>
    have hrun := ih (orderly_apply (t := t) hrt hs step)
    rw [noted_apply hrt hs] at hrun
    rw [outstanding_cons, survives_cons]
    refine hrun.trans ?_
    tauto

variable (t) in
/-- In a compilation that begins without dependencies, whatever the engine was used for before:
exactly the edges are noted that were recorded and not discarded since, and none waits twice. A load
that succeeds leaves the module of its caller noted as one that depends on the module of the macro,
whether the macro was remembered or not. -/
theorem noted_iff_outstanding (engine : Engine R) (config : Config) (typer : I) (module : Path)
    (world : World G) (steps : List (DependencyStep I G)) :
    ∃ s, run t rt ⟨engine, .new config typer module, world⟩ steps = s ∧
      (∀ a b, s.Noted a b ↔
        Outstanding t rt ⟨engine, .new config typer module, world⟩ steps a b) ∧
      s.compilation.shared.pending.Nodup ∧
      ∀ side r display pos b s', (EngineM.loadMacro t rt side r display pos).run s = (.ok b, s') →
        PendingEdge.Accepts (s.compilation.moduleOf side) b.module →
        s'.Noted (s.compilation.moduleOf side) b.module := by
  let begun : EngineState R I G := ⟨engine, .new config typer module, world⟩
  have hbegun : begun.Orderly := ⟨List.nodup_nil, fun e he => absurd he List.not_mem_nil⟩
  have hnone (a b : Path) : ¬begun.Noted a b := by
    rintro (hedge | ⟨e, he, -⟩)
    · exact absurd hedge List.not_mem_nil
    · exact absurd he List.not_mem_nil
  have hs := orderly_run (t := t) hrt hbegun steps
  refine ⟨_, rfl, fun a b => ?_, hs.nodup, fun side r display pos b s' hload haccepts => ?_⟩
  · have hnoted := noted_run (t := t) hrt hbegun steps a b
    simpa [hnone a b] using hnoted
  · have hnotes := EngineM.notes_loadMacro (t := t) hrt side r display pos (run t rt begun steps)
    rw [EngineM.fst_locate_of_loadMacro hload, hload] at hnotes
    exact (Notes.noted hnotes hs _ _).mpr (.inr ⟨haccepts, rfl, rfl⟩)

end DependencyStep

namespace RememberedCall

def loads : List (DependencyStep Checker Host) :=
  [.load .program reference false .null,
    .compile fun scope world => ({ scope with module := caller }, world),
    .load .program reference false .null]

def loaded : EngineState NativeState Checker Host :=
  DependencyStep.run Checker.typer runtime start loads

theorem mem_pending_loaded :
    (⟨caller, tools, .load⟩ : PendingEdge) ∈ loaded.compilation.shared.pending := by
  decide +kernel

theorem outstanding_loaded :
    DependencyStep.Outstanding Checker.typer runtime start loads caller tools := by
  have hruntime : runtime.KeepsDependencies :=
    NativeRuntime.keepsDependencies (.ofScripts []) [] Stage.evaluationSteps
  obtain ⟨s, hs, hnoted, -⟩ := DependencyStep.noted_iff_outstanding Checker.typer hruntime
    .new .default .new ⟨[], "Main"⟩ start.world loads
  have hloaded : loaded = s := hs
  refine (hnoted caller tools).mp (.inr ⟨⟨caller, tools, .load⟩, ?_, rfl, rfl⟩)
  rw [← hloaded]
  exact mem_pending_loaded

end RememberedCall

end HaxeMacro
