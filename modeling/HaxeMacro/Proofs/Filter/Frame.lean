import HaxeMacro.Engine.Flush
import Mathlib.Tactic.Choose
import Mathlib.Tactic.Simps.Basic

/-! # What filters leave as it is

A filter on bodies sees and changes nothing but bodies. Of the filters on whole classes each changes
a part of its own; the type that a class declares stays, and none of them fails.
-/

namespace HaxeMacro

/-! ## Bodies -/

structure Bodies where
  fields : List Member
  statics : List Member
  constructor : Option Member
  init : Option TypedExpr

namespace ClassDef

def bodies (c : ClassDef) : Bodies := ⟨c.fields, c.statics, c.constructor, c.init⟩

def withBodies (c : ClassDef) (b : Bodies) : ClassDef :=
  { c with fields := b.fields, statics := b.statics, constructor := b.constructor, init := b.init }

/-- Replaces what a cache keeps together with a class. -/
@[simps]
def withCache (c : ClassDef) (restore : Option Snapshot) (dependencies : List Path) : ClassDef :=
  { c with restore, cacheDependencies := dependencies }

theorem bodies_withBodies (c : ClassDef) (b : Bodies) : (c.withBodies b).bodies = b := rfl

theorem withBodies_withBodies (c : ClassDef) (b b' : Bodies) :
    (c.withBodies b).withBodies b' = c.withBodies b' := rfl

end ClassDef

def Bodies.visit {m : Type → Type} [Monad m] (visit : String → Expr → m Expr) (b : Bodies) :
    m Bodies := do
  let fields ← b.fields.mapM (ClassDef.visitMember visit)
  let statics ← b.statics.mapM (ClassDef.visitMember visit)
  let constructor ← match b.constructor with
    | none => pure none
    | some member => do pure (some (← ClassDef.visitMember visit member))
  let init ← ClassDef.visitBody visit "__init__" b.init
  return ⟨fields, statics, constructor, init⟩

theorem ClassDef.visitBodies_eq {m : Type → Type} [Monad m] [LawfulMonad m]
    (visit : String → Expr → m Expr) (c : ClassDef) :
    c.visitBodies visit = c.withBodies <$> c.bodies.visit visit := by
  unfold ClassDef.visitBodies Bodies.visit ClassDef.bodies
  cases c.constructor <;> simp [ClassDef.withBodies]

/-- The operation sees and changes nothing but the bodies of a class. -/
def OnBodies {β : Type} (op : ClassDef → ClassDef × β) : Prop :=
  ∃ change : Bodies → Bodies × β, ∀ c,
    op c = (c.withBodies (change c.bodies).1, (change c.bodies).2)

namespace OnBodies

variable {β : Type} {op : ClassDef → ClassDef × β}

theorem withBodies (h : OnBodies op) (c : ClassDef) : ∃ b, (op c).1 = c.withBodies b := by
  obtain ⟨change, h⟩ := h
  exact ⟨_, congrArg Prod.fst (h c)⟩

end OnBodies

theorem onBodies_visit {σ β : Type} (visit : String → Expr → StateM σ Expr) (start : Bodies → σ)
    (finish : Bodies → σ → Bodies × β) :
    OnBodies fun c =>
      let visited := (c.visitBodies visit).run (start c.bodies)
      let finished := finish visited.1.bodies visited.2
      (visited.1.withBodies finished.1, finished.2) := by
  refine ⟨fun b =>
    let visited := (b.visit visit).run (start b)
    finish visited.1 visited.2, fun c => ?_⟩
  have hrun : (c.visitBodies visit).run (start c.bodies) =
      (c.withBodies <$> c.bodies.visit visit).run (start c.bodies) :=
    congrArg (·.run (start c.bodies)) (c.visitBodies_eq visit)
  simp only [hrun]
  rfl

theorem onBodies_countBodies (f : Expr → Expr × Nat) :
    OnBodies fun c => Filtered.done (c.countBodies f) :=
  onBodies_visit (fun _ body => do modify (· + (f body).2); pure (f body).1) (fun _ => 0)
    fun b count => (b, (.ok count : Except FilterError Nat))

theorem onBodies_localStatic : OnBodies Filter.localStatic := by
  have hvisit := onBodies_visit Filter.Hoisting.body
    (fun b => ⟨b.statics.map (·.name) ++ b.fields.map (·.name), [], none⟩) fun b h =>
      (h.failure.elim ({ b with statics := b.statics ++ h.hoisted }, .ok h.hoisted.length)
        fun e => (b, .error e) : Bodies × Except FilterError Nat)
  refine Eq.subst (funext fun c => ?_) hvisit
  unfold Filter.localStatic
  dsimp only [ClassDef.bodies]
  generalize (c.visitBodies Filter.Hoisting.body).run _ = visited
  obtain ⟨d, taken, hoisted, failure⟩ := visited
  cases failure <;> rfl

theorem BodyFilter.onBodies_run (f : BodyFilter) : OnBodies f.run := by
  cases f with
  | abstractCast => exact onBodies_countBodies _
  | localStatic => exact onBodies_localStatic
  | throwing => exact onBodies_countBodies _
  | captureBox => exact onBodies_countBodies _

/-! ## Whole classes -/

/-- Two states of one class: taken back to the same snapshot, they differ at most in what a cache
keeps. -/
def SameClass (c d : ClassDef) : Prop :=
  ∀ s, d.restoreFrom s = (c.restoreFrom s).withCache d.restore d.cacheDependencies

namespace SameClass

theorem refl (c : ClassDef) : SameClass c c := fun _ => rfl

theorem trans {c d e : ClassDef} (h : SameClass c d) (h' : SameClass d e) : SameClass c e := by
  intro s
  rw [h' s, h s]
  rfl

end SameClass

/-- What becomes of a class that is flushed without a failure. -/
structure ClassDef.Passed (c d : ClassDef) : Prop where
  same : SameClass c d
  filtered : d.filtered = true
  restore : d.restore = if c.filtered then c.restore else some (c.restore.getD c.snapshot)

theorem ClassDef.Passed.trans {c d e : ClassDef} (h : c.Passed d) (h' : d.Passed e) :
    c.Passed e where
  same := h.same.trans h'.same
  filtered := h'.filtered
  restore := by rw [h'.restore, if_pos h.filtered, h.restore]

namespace TypeFilter

variable (cx : FilterContext) (f : TypeFilter) (c : ClassDef)

/-- No filter on whole classes fails, and only one of them takes a snapshot. -/
theorem run_spec : ∃ d count, f.run cx c = (d, .ok count) ∧ SameClass c d ∧
    d.filtered = c.filtered ∧
    d.restore = if f = .recordSnapshot then c.restore.or cx.snapshot else c.restore := by
  cases f with
  | recordSnapshot =>
    simp only [run, Filter.recordSnapshot, if_true]
    cases h : c.restore with
    | none => exact ⟨_, _, rfl, fun _ => rfl, rfl, rfl⟩
    | some s => exact ⟨c, 0, rfl, fun _ => rfl, rfl, h⟩
  | cacheDependencies => exact ⟨_, _, rfl, fun _ => rfl, rfl, rfl⟩
  | stripGenericBase =>
    simp only [run, Filter.stripGenericBase, reduceCtorEq, if_false]
    split <;> exact ⟨_, _, rfl, fun _ => rfl, rfl, rfl⟩
  | exceptionConstructor =>
    simp only [run, Filter.addExceptionConstructor, reduceCtorEq, if_false]
    split <;> exact ⟨_, _, rfl, fun _ => rfl, rfl, rfl⟩
  | fieldInit =>
    simp only [run, Filter.fieldInit, reduceCtorEq, if_false]
    (repeat' split) <;> exact ⟨_, _, rfl, fun _ => rfl, rfl, rfl⟩
  | nativePath =>
    simp only [run, Filter.nativePath, reduceCtorEq, if_false]
    (repeat' split) <;> exact ⟨_, _, rfl, fun _ => rfl, rfl, rfl⟩

end TypeFilter

namespace FilterPipeline

theorem onBodies_runAll (fs : List BodyFilter) (stats : FilterStats) :
    OnBodies fun c => runAll BodyFilter.name BodyFilter.run fs c stats := by
  induction fs generalizing stats with
  | nil => exact ⟨fun b => (b, .ok stats), fun c => rfl⟩
  | cons f fs ih =>
    obtain ⟨first, hfirst⟩ := f.onBodies_run
    choose rest hrest using fun count => ih (stats.add f.name count)
    refine ⟨fun b =>
      match first b with
      | (b, .error e) => (b, .error e)
      | (b, .ok count) => rest count b, fun c => ?_⟩
    simp only [runAll, hfirst]
    rcases first c.bodies with ⟨b, e | count⟩
    · rfl
    · simp only [hrest]
      rw [ClassDef.withBodies_withBodies, ClassDef.bodies_withBodies]

theorem runAll_types (cx : FilterContext) (fs : List TypeFilter) (c : ClassDef)
    (stats : FilterStats) :
    ∃ d stats', runAll TypeFilter.name (TypeFilter.run cx) fs c stats = (d, .ok stats') ∧
      SameClass c d ∧ d.filtered = c.filtered ∧
      d.restore = if .recordSnapshot ∈ fs then c.restore.or cx.snapshot else c.restore := by
  induction fs generalizing c stats with
  | nil => exact ⟨c, stats, rfl, .refl c, rfl, by simp⟩
  | cons f fs ih =>
    obtain ⟨d, count, hrun, hsame, hfiltered, hrestore⟩ := f.run_spec cx c
    obtain ⟨e, stats', hrest, hsame', hfiltered', hrestore'⟩ := ih d (stats.add f.name count)
    refine ⟨e, stats', ?_, hsame.trans hsame', hfiltered'.trans hfiltered, ?_⟩
    · rw [runAll, hrun]
      exact hrest
    · rw [hrestore', hrestore]
      by_cases hf : f = .recordSnapshot
      · subst hf
        cases c.restore <;> simp
      · simp [hf, Ne.symm hf]

/-- The class is given up with the failure of a filter, or passes all of them. -/
theorem run_cases (module : Path) (c : ClassDef) :
    (∃ d e, default.run (contextOf module c) c = (d, .error e)) ∨
    ∃ d stats, default.run (contextOf module c) c = (d, .ok stats) ∧ c.Passed d := by
  unfold run contextOf
  by_cases hfiltered : c.filtered = true
  · simp only [hfiltered, if_true]
    obtain ⟨d, stats, hrun, hsame, hd, hrestore⟩ :=
      runAll_types ⟨module, c.restore⟩ default.types c []
    refine .inr ⟨d, stats, hrun, hsame, hd.trans hfiltered, ?_⟩
    rw [hrestore, if_pos hfiltered]
    cases c.restore <;> simp
  · simp only [hfiltered]
    obtain ⟨b, hb⟩ := (onBodies_runAll default.bodies []).withBodies c
    rcases h : runAll BodyFilter.name BodyFilter.run default.bodies c [] with ⟨d, e | stats⟩
    · exact .inl ⟨d, e, rfl⟩
    · rw [h] at hb
      subst hb
      obtain ⟨d, stats', hrun, hsame, hd, hrestore⟩ :=
        runAll_types ⟨module, some c.snapshot⟩ default.types
          { c.withBodies b with filtered := true } stats
      refine .inr ⟨d, stats', hrun, SameClass.trans (fun _ => rfl) hsame, hd, ?_⟩
      rw [hrestore, if_neg hfiltered]
      change (if _ then c.restore.or (some c.snapshot) else c.restore) = _
      cases c.restore <;> simp [default]

theorem passed_of_run {module : Path} {c d : ClassDef} {stats : FilterStats}
    (h : default.run (contextOf module c) c = (d, .ok stats)) : c.Passed d := by
  obtain ⟨_, _, hfailed⟩ | ⟨_, _, hrun, hpassed⟩ := run_cases module c
  · cases h.symm.trans hfailed
  · cases h.symm.trans hrun
    exact hpassed

theorem run_of_filtered (module : Path) {c : ClassDef} (h : c.filtered = true) :
    ∃ d stats, default.run (contextOf module c) c = (d, .ok stats) := by
  obtain ⟨d, stats, hrun, -⟩ := runAll_types (contextOf module c) default.types c []
  exact ⟨d, stats, by rw [run, if_pos h, hrun]⟩

end FilterPipeline

end HaxeMacro
