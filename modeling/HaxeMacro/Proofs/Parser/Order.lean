import HaxeMacro.Fragment.Equality
import HaxeMacro.Proofs.Parser.Spans

/-! # The order of visits

The direct sub-expressions of an expression that is read are visited in the order of the text, but
for one form: a loop that starts with its body keeps its test first.
-/

namespace HaxeMacro

open Position

/-! ## Spans in a row -/

theorem Position.Spread.pairwise {a b : UInt32} {ps : List Position} (h : Spread a ps b) :
    ps.Pairwise fun p q => p.max ≤ q.min := by
  induction ps generalizing a with
  | nil => simp
  | cons p ps ih =>
    obtain ⟨-, -, hrest⟩ := h
    refine List.pairwise_cons.mpr ⟨fun q hq => ?_, ih hrest⟩
    exact (hrest.of_mem hq).1

def InTextOrder (es : List Expr) : Prop := es.Pairwise fun a b => a.pos.max ≤ b.pos.min

theorem inTextOrder_of_spread {a b : UInt32} {es : List Expr}
    (h : Spread a ((es.map Piece.expr).map Piece.pos) b) : InTextOrder es := by
  rw [List.map_map] at h
  exact List.pairwise_map.mp h.pairwise

namespace Piece.Nested

variable {file : UInt32}

theorem spread {p : Piece} (h : p.Nested file) :
    Spread p.pos.min (p.inside.map pos) p.pos.max := by
  cases h with
  | mk _ spread _ => exact spread

theorem inTextOrder_annotated {entry : Metadata} {inner : Expr} {span : Position}
    (h : (Piece.expr ⟨.annotated entry inner, span⟩).Nested file) :
    InTextOrder (entry.args ++ [inner]) := by
  obtain ⟨-, -, hinner, -, -⟩ := h.spread
  have hentry : (Piece.entry entry).Nested file := h.of_inside List.mem_cons_self
  refine List.pairwise_append.mpr ⟨inTextOrder_of_spread hentry.spread, by simp, ?_⟩
  intro arg harg e he
  rw [List.mem_singleton.mp he]
  have hin : Piece.expr arg ∈ (Piece.entry entry).inside := List.mem_map_of_mem harg
  exact UInt32.le_trans (hentry.within hin).max hinner

theorem inTextOrder {e : Expr} (h : (Piece.expr e).Nested file)
    (hloop : ∀ test body, e.kind ≠ .loop test body false) : InTextOrder e.children := by
  obtain ⟨kind, pos⟩ := e
  cases kind with
  | annotated entry inner => exact h.inTextOrder_annotated
  | loop test body testFirst =>
    cases testFirst with
    | true => exact inTextOrder_of_spread h.spread
    | false => exact absurd rfl (hloop test body)
  | _ => exact inTextOrder_of_spread h.spread

/-- The test of the loop stands after its body, and is visited before it. -/
theorem body_before_test {test body : Expr} {span : Position}
    (h : (Piece.expr ⟨.loop test body false, span⟩).Nested file) :
    body.pos.max ≤ test.pos.min ∧
      (InTextOrder [test, body] ↔ body.pos.min = test.pos.max) := by
  obtain ⟨-, hbody, hbetween, htest, -⟩ := h.spread
  have hpair : InTextOrder [test, body] ↔ test.pos.max ≤ body.pos.min := by
    simp [InTextOrder]
  refine ⟨hbetween, hpair.trans ⟨fun hle => ?_, fun heq => heq ▸ UInt32.le_refl _⟩⟩
  have hlong := UInt32.le_trans hbody (UInt32.le_trans hbetween htest)
  exact UInt32.le_antisymm hlong hle

end Piece.Nested

/-! ## Whole texts -/

/-- In an expression that is read, direct sub-expressions are visited in the order of the text, but
those of a loop that starts with its body in the opposite order: they are in order only if both are
empty and stand at the same place. -/
theorem Expr.inTextOrder_of_parse {text : String} {pos : Position} {e : Expr}
    (hpos : pos.file ≠ Position.noFile) (h : Expr.parse text pos = .ok e) :
    ∀ node ∈ e.nodes,
      ((∀ test body, node.kind ≠ .loop test body false) → InTextOrder node.children) ∧
      ∀ test body, node.kind = .loop test body false →
        body.pos.max ≤ test.pos.min ∧
          (InTextOrder node.children ↔ body.pos.min = test.pos.max) := by
  obtain ⟨rest, hread⟩ := Entry.done_of_readAll h
  have hrow := Grammar.stands_expression hpos _ _ e rest (.nil (List.suffix_refl _)) hread
  intro node hnode
  have hnested := ((hrow.nested (.expr e) List.mem_cons_self).node hnode).1
  refine ⟨hnested.inTextOrder, fun test body hkind => ?_⟩
  obtain ⟨kind, span⟩ := node
  obtain rfl : kind = .loop test body false := hkind
  exact hnested.body_before_test

theorem Expr.inTextOrder_annotated_call : (0 : UInt32) ≠ Position.noFile ∧ ∃ e,
    Expr.parse "@m(1) f(a, function(x = 1) b)" ⟨0, 0, 0⟩ = .ok e ∧
    ∀ node ∈ e.nodes, (∀ test body, node.kind ≠ .loop test body false) →
      InTextOrder node.children := by
  have hfile : (0 : UInt32) ≠ Position.noFile := by decide
  have hok : (Expr.parse "@m(1) f(a, function(x = 1) b)" ⟨0, 0, 0⟩).isOk = true := by
    decide +kernel
  refine ⟨hfile, ?_⟩
  cases h : Expr.parse "@m(1) f(a, function(x = 1) b)" ⟨0, 0, 0⟩ with
  | ok e => exact ⟨e, rfl, fun node hnode => (Expr.inTextOrder_of_parse hfile h node hnode).1⟩
  | error _ => simp [h, Except.isOk, Except.toBool] at hok

namespace BodyFirst

def body : Expr := .ident "a" ⟨0, 3, 4⟩

def test : Expr := .ident "b" ⟨0, 12, 13⟩

def loop : Expr := ⟨.loop test body false, ⟨0, 0, 14⟩⟩

/-- The test is visited first, although the body stands before it. -/
theorem not_inTextOrder_loop :
    (Expr.parse "do a while (b)" ⟨0, 0, 0⟩).toOption.any (· == loop) = true ∧
    loop ∈ loop.nodes ∧ loop.children = [test, body] ∧ ¬ InTextOrder loop.children := by
  have hread : (Expr.parse "do a while (b)" ⟨0, 0, 0⟩).toOption.any (· == loop) = true := by
    decide +kernel
  refine ⟨hread, List.mem_cons_self, rfl, fun horder => ?_⟩
  obtain ⟨hlast, -⟩ := List.pairwise_cons.mp horder
  have hle : test.pos.max ≤ body.pos.min := hlast body List.mem_cons_self
  revert hle
  decide

end BodyFirst

end HaxeMacro
