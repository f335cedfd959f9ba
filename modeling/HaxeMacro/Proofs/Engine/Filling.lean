import HaxeMacro.Proofs.Engine.Transparency
import HaxeMacro.Proofs.Fragment.Positions

/-! # The positions of what a macro gives

An expression macro gives a value that is read as an expression. Every expression in it that has no
position takes the position of the call. A position in a type, in the metadata of a variable or a
parameter, or of a metadata entry stays as the macro gave it, null or not.
-/

namespace HaxeMacro

variable {R I G α : Type} {t : Typer I G} {rt : Runtime R I G} {s s' : EngineState R I G}

namespace EngineM

theorem ok_of_run_withRuntime {name : String} {pos : Position} {action : Action R I G α} {a : α}
    (h : (withRuntime name pos action).run s = (.ok a, s')) :
    ∃ live, s.engine.runtime = some live ∧ live.handle.poisoned = false ∧
      (action.run (live.state, (beginCall s name pos).2)).1 = .ok a := by
  cases hlive : s.engine.isLive with
  | false =>
    rw [run_withRuntime_of_not_live hlive] at h
    cases h
  | true =>
    obtain ⟨live, hruntime, hhealthy⟩ := Engine.exists_of_isLive hlive
    refine ⟨live, hruntime, hhealthy, ?_⟩
    rw [run_withRuntime hruntime hhealthy] at h
    rcases hresult : (action.run (live.state, (beginCall s name pos).2)).1 with
      (payload | message | stop) | value
    all_goals
      rw [hresult] at h
      cases h
    rfl

theorem ok_of_run_readResult {v : Value} {pos : Position} {e' : Expr}
    (h : (readResult t .expr v pos : EngineM R I G CallResult).run s = (.ok (.expr e'), s')) :
    ∃ e, v.decodeExpr = .ok e ∧ e' = e.fillPositions pos := by
  have hrun : (readResult t .expr v pos : EngineM R I G CallResult).run s = _ := run_bind_ok rfl
  rw [hrun] at h
  cases hdecode : v.decodeExpr with
  | ok e =>
    rw [hdecode] at h
    cases h
    exact ⟨e, rfl, rfl⟩
  | faulty first others =>
    rw [hdecode] at h
    cases h

theorem executes_of_invoke {side : Side} {r : Reference} {args : List Expr} {pos : Position}
    {e' : Expr} (h : ((invoke t rt side .expr r args pos).run s).1 = .ok (.expr e')) :
    ∃ call v e, Executes t rt .expr r args pos s call (.ok (some v)) ∧ v.decodeExpr = .ok e ∧
      e' = e.fillPositions pos := by
  cases side with
  | macros => cases h
  | program =>
    rw [invoke_eq t rt (by decide), run_withMacroSelection] at h
    obtain ⟨call, s₁, hprepare, h⟩ := ok_of_run_bind (Prod.ext h rfl)
    obtain ⟨result, s₂, hreturned, h⟩ := ok_of_run_bind h
    obtain ⟨live, hlive, hhealthy, hreturned⟩ := ok_of_run_withRuntime hreturned
    cases result with
    | none => cases h
    | some v =>
      obtain ⟨e, hdecode, he⟩ := ok_of_run_readResult h
      exact ⟨call, v, e, .intro hprepare hlive hhealthy hreturned, hdecode, he⟩

/-- What an expression macro gives at a position that is not null is the expression that the
returned value stands for with other positions. The expressions in it have no null positions, and
the other positions in it are those of the value. So every position is kept, or is that of the call
where it was null, exactly if no position that belongs to no expression is null; and then none in
the result is. -/
theorem positions_of_invoke {side : Side} {r : Reference} {args : List Expr} {pos : Position}
    {e' : Expr} (hpos : pos.isNull = false)
    (h : ((invoke t rt side .expr r args pos).run s).1 = .ok (.expr e')) :
    ∃ call v e, Executes t rt .expr r args pos s call (.ok (some v)) ∧ v.decodeExpr = .ok e ∧
      e'.unplaced = e.unplaced ∧
      e'.nodes.map (·.pos) = e.nodes.map (·.pos.orElse pos) ∧
      e'.hiddenPositions = e.hiddenPositions ∧
      (e'.positions = e.positions.map (·.orElse pos) ↔
        ∀ p ∈ e.hiddenPositions, p.isNull = false) ∧
      ((∀ p ∈ e'.positions, p.isNull = false) ↔ ∀ p ∈ e.hiddenPositions, p.isNull = false) := by
  obtain ⟨call, v, e, hexec, hdecode, rfl⟩ := executes_of_invoke h
  exact ⟨call, v, e, hexec, hdecode, e.unplaced_fillPositions pos, e.map_pos_fillPositions pos,
    e.hiddenPositions_fillPositions pos, Expr.positions_fillPositions_iff hpos e,
    Expr.forall_positions_fillPositions hpos⟩

end EngineM

/-! ## A null position that stays -/

namespace Echo

/-- `@:m x`, without any positions. -/
def noted : Expr := ⟨.annotated ⟨":m", [], .null⟩ (.ident "x" .null), .null⟩

def giveNoted (_ : List Value) : Option Value := some (Encode.expr noted)

theorem invoke_noted :
    ((EngineM.invoke Checker.typer (runtime giveNoted) .program .expr same [given] pos).run
      start).1 = .ok (.expr (noted.fillPositions pos)) := by
  obtain ⟨call, -, -, hexec⟩ := exists_executes Checker.typer giveNoted .expr same [given] start
    (fun _ => true) (by decide +kernel) (by decide +kernel)
  obtain ⟨s', hrun⟩ := hexec.fst_invoke (by decide)
  rw [hrun]
  exact EngineM.fst_readResult_expr (decode_encode.1 noted) pos

theorem pos_of_noted : ∃ e' call v e,
    ((EngineM.invoke Checker.typer (runtime giveNoted) .program .expr same [given] pos).run
      start).1 = .ok (.expr e') ∧
    EngineM.Executes Checker.typer (runtime giveNoted) .expr same [given] pos start call
      (.ok (some v)) ∧
    v.decodeExpr = .ok e ∧ e'.nodes.map (·.pos) = e.nodes.map (·.pos.orElse pos) := by
  obtain ⟨call, v, e, hexec, hdecode, -, hnodes, -⟩ :=
    EngineM.positions_of_invoke (by decide) invoke_noted
  exact ⟨_, call, v, e, invoke_noted, hexec, hdecode, hnodes⟩

/-- The entry has no position still. -/
theorem null_mem_positions_of_noted :
    ((EngineM.invoke Checker.typer (runtime giveNoted) .program .expr same [given] pos).run
      start).1 = .ok (.expr (noted.fillPositions pos)) ∧
    pos.isNull = false ∧ .null ∈ (noted.fillPositions pos).positions :=
  ⟨invoke_noted, by decide, by decide⟩

end Echo

end HaxeMacro
