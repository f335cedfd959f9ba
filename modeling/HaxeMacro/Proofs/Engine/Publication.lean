import HaxeMacro.Proofs.Engine.Runs
import HaxeMacro.Proofs.Filter.Batch

/-! # Publication

A flush publishes all modules that the type checker for macros hands over, or none of them. If it
fails, the macros are given up with their runtime.
-/

namespace HaxeMacro

variable {R I G : Type}

def World.addresses (w : World G) (ids : List ModuleId) : Entries Path ModuleId :=
  ids.filterMap fun id => (w.module? id).map fun m => (m.path, id)

namespace EngineState

def Incomplete (t : Typer I G) (s : EngineState R I G) : Prop :=
  ∃ macros e scope w, s.compilation.macros = some macros ∧
    macros.check t.finalize s.world = (.error e, scope, w)

/-- When the typing of macros is complete, the type checker hands over the modules `ids` of the
world `w`. -/
def HandsOver (t : Typer I G) (s : EngineState R I G) (ids : List ModuleId) (w : World G) : Prop :=
  ∃ macros scope w₁ scope', s.compilation.macros = some macros ∧
    macros.check t.finalize s.world = (.ok (), scope, w₁) ∧
    scope.use t.takeProduced w₁ = (ids, scope', w)

/-- The modules `ids` of the world `w` are filtered and published, each under its path. -/
structure Published (s : EngineState R I G) (ids : List ModuleId) (w : World G)
    (s' : EngineState R I G) : Prop where
  passed : World.Passed ids w s'.world
  modules : s'.compilation.shared.modules =
    (w.addresses ids).foldl (fun published e => Entries.set published e.1 e.2)
      s.compilation.shared.modules
  flushing : s'.compilation.shared.flushing = s.compilation.shared.flushing

/-- Nothing is published, and there is nothing left of the macros. -/
structure GivenUp (s s' : EngineState R I G) : Prop where
  modules : s'.compilation.shared.modules = s.compilation.shared.modules
  macros : s'.compilation.macros = none
  runtime : s'.engine.isLive = false
  bindings : s'.engine.cache.bindings = []
  flushing : s'.compilation.shared.flushing = s.compilation.shared.flushing

def withMacros (s : EngineState R I G) (macros : Scope I) (world : World G) : EngineState R I G :=
  { s with world, compilation := { s.compilation with macros := some macros } }

end EngineState

theorem World.publish_eq (w : World G) (ids : List ModuleId) (modules : Entries Path ModuleId) :
    w.publish ids modules =
      (w.addresses ids).foldl (fun published e => Entries.set published e.1 e.2) modules := by
  unfold publish addresses
  induction ids generalizing modules with
  | nil => rfl
  | cons id ids ih =>
    rw [List.foldl_cons, ih, List.filterMap_cons]
    cases w.module? id <;> rfl

theorem World.Passed.addresses_eq {ids : List ModuleId} {w w' : World G} (h : Passed ids w w') :
    w'.addresses ids = w.addresses ids := by
  unfold addresses
  refine List.filterMap_congr fun id hid => ?_
  cases hm : w.module? id with
  | none => rw [h.others id (.inr hm), hm]
  | some m =>
    obtain ⟨m', hm', hpassed⟩ := h.batch id hid m hm
    rw [hm', Option.map_some, Option.map_some, hpassed.path]

namespace EngineM

variable (t : Typer I G) {s s' : EngineState R I G}

theorem run_checkMacros {α : Type} {op : Checking I G α} {macros scope : Scope I} {w : World G}
    {result : Except TypingError α} (hmacros : s.compilation.macros = some macros)
    (h : macros.check op s.world = (result, scope, w)) :
    (checkMacros op).run s = (.ok result, s.withMacros scope w) := by
  refine (run_bind_ok rfl).trans ?_
  simp only [hmacros, h]
  rfl

theorem run_takeProduced {macros scope : Scope I} {w : World G} {ids : List ModuleId}
    (hmacros : s.compilation.macros = some macros)
    (h : macros.use t.takeProduced s.world = (ids, scope, w)) :
    (takeProduced t).run s = (.ok ids, s.withMacros scope w) := by
  refine (run_bind_ok rfl).trans ?_
  simp only [hmacros, h]
  rfl

theorem run_flushModules {macros : Scope I} (hmacros : s.compilation.macros = some macros) :
    (∃ fault s', (flushModules t).run s = (.error fault, s') ∧
      s'.compilation.shared.modules = s.compilation.shared.modules ∧
      (s.Incomplete t ∨ ∃ ids w error, s.HandsOver t ids w ∧ World.Fails ids w error)) ∨
    ∃ ids w s', (flushModules t).run s = (.ok ids, s') ∧
      s'.compilation.shared.modules = s.compilation.shared.modules ∧
      s.HandsOver t ids w ∧ World.Passed ids w s'.world ∧ ∀ error, ¬World.Fails ids w error := by
  rcases hcheck : macros.check t.finalize s.world with ⟨e | ⟨⟩, scope, w₁⟩
  · exact .inl ⟨_, _, run_bind_ok (run_checkMacros hmacros hcheck), rfl,
      .inl ⟨macros, e, scope, w₁, hmacros, hcheck⟩⟩
  rcases htake : scope.use t.takeProduced w₁ with ⟨ids, scope', w⟩
  have hover : s.HandsOver t ids w := ⟨macros, scope, w₁, scope', hmacros, hcheck, htake⟩
  let left (w' : World G) : EngineState R I G :=
    { s.withMacros scope' w' with
      compilation := (s.withMacros scope' w').compilation.mapShared (·.commit) }
  have hfilter {w' : World G} {result : Except MacroError Unit}
      (hrun : FilterPipeline.default.runOnModules ids w = (w', result)) :
      (flushModules t).run s =
        (do ofResult result; return ids : EngineM R I G _).run (left w') := by
    refine (run_bind_ok (run_checkMacros hmacros hcheck)).trans ?_
    refine (run_bind_ok (run_takeProduced t rfl htake)).trans ?_
    refine (run_bind_ok rfl).trans ?_
    refine (run_bind_ok rfl).trans ?_
    simp only [EngineState.withMacros, hrun]
    exact run_bind_ok rfl
  rcases FilterPipeline.runOnModules_cases ids w with
    ⟨w', error, hfails, hrun⟩ | ⟨w', hpassed, hfit, hrun⟩
  · exact .inl ⟨.error error, left w', hfilter hrun, rfl, .inr ⟨ids, w, error, hover, hfails⟩⟩
  · exact .inr ⟨ids, w, left w', hfilter hrun, rfl, hover, hpassed, hfit⟩

end EngineM

namespace EngineState

variable {t : Typer I G} {s : EngineState R I G}

theorem not_incomplete_of_handsOver {ids : List ModuleId} {w : World G} (h : s.HandsOver t ids w) :
    ¬s.Incomplete t := by
  rintro ⟨macros, e, scope, w', hmacros, hcheck⟩
  obtain ⟨macros', _, _, _, hmacros', hcheck', -⟩ := h
  cases hmacros.symm.trans hmacros'
  cases hcheck.symm.trans hcheck'

theorem HandsOver.unique {ids ids' : List ModuleId} {w w' : World G} (h : s.HandsOver t ids w)
    (h' : s.HandsOver t ids' w') : ids = ids' ∧ w = w' := by
  obtain ⟨macros, scope, w₁, _, hmacros, hcheck, htake⟩ := h
  obtain ⟨macros', scope', w₁', _, hmacros', hcheck', htake'⟩ := h'
  cases hmacros.symm.trans hmacros'
  cases hcheck.symm.trans hcheck'
  cases htake.symm.trans htake'
  exact ⟨rfl, rfl⟩

end EngineState

namespace EngineM

variable (t : Typer I G) (s : EngineState R I G)

/-- A flush that has nothing to do changes nothing. Any other flush publishes exactly what is handed
over, with all classes filtered, or gives everything up: it fails if completing the typing of macros
does or if a class does. -/
theorem flush_all_or_nothing :
    ∃ result s', (flush t).run s = (result, s') ∧
      s'.compilation.shared.flushing = s.compilation.shared.flushing ∧
      (s.Idle → result = .ok 0 ∧ s' = s) ∧
      (¬s.Idle → ∀ n, result = .ok n →
        ∃ ids w, s.HandsOver t ids w ∧ n = ids.length ∧ s.Published ids w s') ∧
      (∀ fault, result = .error fault → s.GivenUp s') ∧
      ((∃ fault, result = .error fault) ↔
        ¬s.Idle ∧ (s.Incomplete t ∨
          ∃ ids w error, s.HandsOver t ids w ∧ World.Fails ids w error)) := by
  by_cases hidle : s.Idle
  · exact ⟨.ok 0, s, run_flush_of_idle t hidle, rfl, fun _ => ⟨rfl, rfl⟩,
      fun h => absurd hidle h, by simp, by simp [hidle]⟩
  obtain ⟨hflushing, macros, hmacros⟩ :
      s.compilation.shared.flushing = false ∧ ∃ macros, s.compilation.macros = some macros := by
    simpa [EngineState.Idle, Option.ne_none_iff_exists'] using hidle
  have hrun := run_flush t hidle
  rcases run_flushModules t (s := s.withFlushing true) hmacros with
    ⟨fault, s', hs', hmodules, hwhy⟩ | ⟨ids, w, s', hs', hmodules, hover, hpassed, hfit⟩
  · rw [hs'] at hrun
    -- What fails, be it the completion or a class, invalidates the engine.
    refine ⟨_, _, hrun, hflushing.symm, fun h => absurd h hidle, by simp, fun _ _ => ?_, ?_⟩
    · exact ⟨hmodules, rfl, Engine.isLive_invalidate _, rfl, hflushing.symm⟩
    · exact ⟨fun _ => ⟨hidle, hwhy⟩, fun _ => ⟨fault, rfl⟩⟩
  · rw [hs'] at hrun
    refine ⟨_, _, hrun, hflushing.symm, fun h => absurd h hidle, fun _ n hn => ?_, by simp, ?_⟩
    · cases hn
      refine ⟨ids, w, hover, rfl, hpassed, ?_, hflushing.symm⟩
      change s'.world.publish ids s'.compilation.shared.modules = _
      rw [World.publish_eq, hpassed.addresses_eq, hmodules]
      rfl
    · -- What is handed over is determined by the state, and all of it has passed.
      refine ⟨by simp, fun ⟨_, hwhy⟩ => ?_⟩
      rcases hwhy with hincomplete | ⟨ids', w', error, hover', hfails⟩
      · exact absurd hincomplete (EngineState.not_incomplete_of_handsOver hover)
      · obtain ⟨rfl, rfl⟩ := EngineState.HandsOver.unique hover hover'
        exact absurd hfails (hfit error)

end EngineM

end HaxeMacro
