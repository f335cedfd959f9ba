import HaxeMacro.Fragment.Placement
import HaxeMacro.Fragment.Printer
import HaxeMacro.Fragment.Traversal
import HaxeMacro.Parser.Entry
import HaxeMacro.Proofs.Printing.ReadForms
import HaxeMacro.Proofs.Printing.ReadTypes
import HaxeMacro.Proofs.Printing.Requoting

/-! # Reading what was printed -/

namespace HaxeMacro

/-- The text of the expression, read at `pos`, gives the expression again, up to positions. -/
def Expr.Reprints (e : Expr) (pos : Position) : Prop :=
  ∃ e', Expr.parse e.text pos = .ok e' ∧ e'.unplaced = e.unplaced

theorem ExprKind.isOperand_relocate (f : Position → Position) (kind : ExprKind) :
    (kind.relocate f).IsOperand ↔ kind.IsOperand := by
  cases kind <;> rfl

theorem Expr.not_reprints_of_signs {e : Expr} (h : ¬e.kind.SignsApart) (pos : Position) :
    ¬e.Reprints pos := by
  rintro ⟨e', hparse, hsame⟩
  obtain ⟨⟨s, hprint⟩, hoperand, hother⟩ := ExprKind.print_of_not_signsApart h
  have hkind : e'.kind.relocate (fun _ => .null) = e.kind.relocate fun _ => .null := by
    have hkinds := congrArg Expr.kind hsame
    rwa [Expr.unplaced, Expr.unplaced, Expr.relocate_kind, Expr.relocate_kind] at hkinds
  have hoperand' : e'.kind.IsOperand := by
    rwa [← ExprKind.isOperand_relocate, hkind, ExprKind.isOperand_relocate]
  obtain ⟨rest, hread⟩ := Entry.done_of_readAll hparse
  rw [Expr.text, String.toList_ofList, Expr.print_eq, hprint, Grammar.expression_eq] at hread
  obtain ⟨operand, hdecrement⟩ :=
    Grammar.tightExpr_minus_minus (Grammar.tightExpr_of_exprAt hread hoperand').1
  rw [hdecrement] at hkind
  exact hother _ _ hkind.symm

/-- Two minus signs with a blank between them come out as one sign. -/
theorem Expr.not_reprints_minus_minus :
    ∃ e, Expr.parse "- -5" ⟨0, 0, 0⟩ = .ok e ∧ ¬ e.normalizeQuotes.Reprints ⟨0, 0, 0⟩ := by
  refine ⟨⟨.const (.int "--5"), ⟨0, 0, 4⟩⟩, rfl, ?_⟩
  have hsigns : ¬(Expr.normalizeQuotes ⟨.const (.int "--5"), ⟨0, 0, 4⟩⟩).kind.SignsApart := by
    decide
  exact Expr.not_reprints_of_signs hsigns ⟨0, 0, 0⟩

theorem ExprKind.ReadsBack.reprints {e : Expr} (h : e.kind.ReadsBack) (pos : Position) :
    e.Reprints pos := by
  have hnowhere : Grammar.exprAt .nowhere 0 e.print = .done e.unplaced [] := by
    have hread := (h.expr (ExprKind.stops_nil _)).append h.start
    rwa [List.append_nil] at hread
  have hmoves := Grammar.moves_nowhere (.of e.print pos)
  have hsame := (Grammar.keeps_exprAt hmoves 0 e.print (Nat.lt_succ_self _)).1
  obtain ⟨e', hdone, hunplaced⟩ := Reply.map_eq_done (hsame.symm.trans hnowhere)
  refine ⟨e', ?_, hunplaced⟩
  rw [Expr.parse, Expr.text, String.toList_ofList]
  refine Entry.readAll_of_done ?_ hdone
  rw [e.print_eq]
  exact h.not_allBlank

/-- An expression that was read from a text is read again from what the printer makes of it,
wherever the printed text stands, if nothing runs together in that text: no minus sign stands before
another one, and no declaration and no `return` without a value stands where what comes after it
would go on with it. -/
theorem Expr.reprints_of_apart {text : String} {pos : Position} {e : Expr}
    (h : Expr.parse text pos = .ok e)
    (hapart : ∀ node ∈ e.normalizeQuotes.nodes, node.kind.SignsApart ∧ node.kind.Tidy)
    (pos' : Position) : e.normalizeQuotes.Reprints pos' := by
  have hwritten := ExprKind.written_normalizeQuotes (Expr.written_of_parse h).requoted
  have hfaithful : ∀ node ∈ e.normalizeQuotes.nodes, node.kind.Faithful := by
    intro node hnode
    obtain ⟨hsigns, htidy⟩ := hapart node hnode
    exact ⟨htidy, hsigns, e.doubleQuoted_of_mem_nodes node hnode⟩
  obtain ⟨hroot, hparts⟩ := Expr.forall_mem_nodes.mp hfaithful
  exact (hwritten.readsBack ⟨hroot, hparts⟩).reprints pos'

theorem Expr.reprints_statements : ∃ e,
    Expr.parse "do if (c) return; else f('q', -z--) while (x - -1 > 0)" ⟨0, 0, 0⟩ = .ok e ∧
    (∀ node ∈ e.normalizeQuotes.nodes, node.kind.SignsApart ∧ node.kind.Tidy) ∧
    e.normalizeQuotes.Reprints ⟨3, 1, 1⟩ := by
  have hall : ((Expr.parse "do if (c) return; else f('q', -z--) while (x - -1 > 0)"
      ⟨0, 0, 0⟩).toOption.any fun e => decide (∀ node ∈ e.normalizeQuotes.nodes,
        node.kind.SignsApart ∧ node.kind.Tidy)) = true := by decide +kernel
  cases h : Expr.parse "do if (c) return; else f('q', -z--) while (x - -1 > 0)" ⟨0, 0, 0⟩ with
  | ok e =>
    rw [h] at hall
    have hapart := of_decide_eq_true hall
    exact ⟨e, rfl, hapart, Expr.reprints_of_apart h hapart ⟨3, 1, 1⟩⟩
  | error _ =>
    rw [h] at hall
    cases hall

/-- The text of the type, read at `pos`, gives the type again, up to positions. -/
def ComplexType.Reprints (t : ComplexType) (pos : Position) : Prop :=
  ∃ t', ComplexType.parse t.text pos = .ok t' ∧ t'.unplaced = t.unplaced

theorem ComplexType.Written.reprints {t : ComplexType} (h : t.Written) (pos : Position) :
    t.Reprints pos := by
  have hnowhere : Grammar.complexType .nowhere t.print = .done t.unplaced [] := by
    have hread := (h.readsBack.2 [] typeEnds_nil).append h.start
    rwa [List.append_nil] at hread
  have hmoves := Grammar.moves_nowhere (.of t.print pos)
  have hsame := (Grammar.keeps_complexType hmoves t.print (Nat.lt_succ_self _)).1
  obtain ⟨t', hdone, hunplaced⟩ := Reply.map_eq_done (hsame.symm.trans hnowhere)
  refine ⟨t', ?_, hunplaced⟩
  rw [ComplexType.parse, ComplexType.text, String.toList_ofList]
  exact Entry.readAll_of_done h.not_allBlank hdone

/-- A type that was read from a text is read again from what the printer makes of it, wherever the
printed text stands. -/
theorem ComplexType.reprints_of_parse {text : String} {pos : Position} {t : ComplexType}
    (h : ComplexType.parse text pos = .ok t) (pos' : Position) : t.Reprints pos' := by
  obtain ⟨rest, hread⟩ := Entry.done_of_readAll h
  exact (written_of_complexType hread).reprints pos'

theorem ComplexType.reprints_nested : ∃ t,
    ComplexType.parse "?a.b.C.D<Int, \x7bx:Int, ?y:(T->U)\x7d> -> Void" ⟨0, 0, 0⟩ = .ok t ∧
    t.Reprints ⟨7, 20, 20⟩ := by
  have hok : (ComplexType.parse "?a.b.C.D<Int, \x7bx:Int, ?y:(T->U)\x7d> -> Void"
      ⟨0, 0, 0⟩).isOk = true := by decide +kernel
  cases h : ComplexType.parse "?a.b.C.D<Int, \x7bx:Int, ?y:(T->U)\x7d> -> Void" ⟨0, 0, 0⟩ with
  | ok t => exact ⟨t, rfl, ComplexType.reprints_of_parse h ⟨7, 20, 20⟩⟩
  | error _ =>
    rw [h] at hok
    cases hok

end HaxeMacro
