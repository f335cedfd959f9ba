import HaxeMacro.Proofs.Fragment.Children
import HaxeMacro.Proofs.Fragment.Quotes
import HaxeMacro.Proofs.Printing.Faithful

/-! # Other quotes

Double quotes around every string change no form: what is written with other quotes is written, and
what stood apart stands apart.
-/

namespace HaxeMacro

open Token Grammar

/-- The form with double quotes around every string in it. -/
def ExprKind.requoted (kind : ExprKind) : ExprKind :=
  (kind.mapChildren (·.normalizeQuotes)).mapConstant Constant.doubleQuoted

theorem Expr.normalizeQuotes_kind (e : Expr) : e.normalizeQuotes.kind = e.kind.requoted := by
  obtain ⟨kind, pos⟩ := e
  rw [normalizeQuotes_eq, mapConstants_eq]
  rfl

theorem Constant.Written.doubleQuoted {c : Constant} (h : c.Written) : c.doubleQuoted.Written := by
  cases c with
  | string text quotes => exact .string text .double
  | _ => exact h

theorem Constant.isSigned_doubleQuoted (c : Constant) : c.doubleQuoted.isSigned = c.isSigned := by
  cases c <;> rfl

theorem applyLeading_normalizeQuotes (op : UnaryOp) (e : Expr) :
    applyLeading op e.normalizeQuotes = (applyLeading op e).requoted := by
  obtain ⟨kind, pos⟩ := e
  cases op with
  | neg =>
    cases kind with
    | const c => cases c <;> rfl
    | _ => rfl
  | _ => rfl

namespace ExprKind

variable {kind : ExprKind}

theorem lastPart_requoted (kind : ExprKind) :
    kind.requoted.lastPart = kind.lastPart.map (·.normalizeQuotes) := by
  cases kind with
  | vars vs =>
    have hvars : (ExprKind.vars vs).requoted =
        .vars (vs.map fun v => { v with init := v.init.map (·.normalizeQuotes) }) := rfl
    rw [hvars, lastPart, lastPart, List.getLast?_map]
    cases vs.getLast? <;> rfl
  | function kind func => rfl
  | unary op after e => cases after <;> rfl
  | loop test body first => cases first <;> rfl
  | cond test yes no => cases no <;> rfl
  | ret value => cases value <;> rfl
  | cast e type => cases type <;> rfl
  | _ => rfl

theorem endsWith_requoted {p : ExprKind → Bool} (hp : ∀ kind, p kind.requoted = p kind)
    (kind : ExprKind) : kind.requoted.endsWith p = kind.endsWith p := by
  have hall : ∀ e : Expr, e.kind.requoted.endsWith p = e.kind.endsWith p := by
    intro e
    induction e using Expr.induction_children with
    | h e ih =>
      cases hlast : e.kind.lastPart with
      | none =>
        have hlast' : e.kind.requoted.lastPart = none := by
          rw [lastPart_requoted, hlast, Option.map_none]
        rw [endsWith_of_noLast p hlast, endsWith_of_noLast p hlast', hp]
      | some last =>
        have hlast' : e.kind.requoted.lastPart = some last.normalizeQuotes := by
          rw [lastPart_requoted, hlast, Option.map_some]
        rw [endsWith_of_lastPart p hlast, endsWith_of_lastPart p hlast', hp,
          Expr.normalizeQuotes_kind, ih last (mem_children_of_lastPart hlast)]
  exact hall ⟨kind, .null⟩

theorem isGreedy_requoted (kind : ExprKind) : kind.requoted.isGreedy = kind.isGreedy := by
  cases kind with
  | loop test body first => cases first <;> rfl
  | ret value => cases value <;> rfl
  | _ => rfl

theorem isElseless_requoted (kind : ExprKind) : kind.requoted.isElseless = kind.isElseless := by
  cases kind with
  | cond test yes no => cases no <;> rfl
  | _ => rfl

theorem IsClosed.normalizeQuotes {e : Expr} (h : e.kind.IsClosed) :
    e.normalizeQuotes.kind.IsClosed := by
  rw [e.normalizeQuotes_kind]
  refine ⟨?_, fun c hc => ?_⟩
  · rw [lastPart_requoted, h.noLast, Option.map_none]
  · obtain ⟨kind, pos⟩ := e
    cases kind <;> cases hc
    rw [Constant.isSigned_doubleQuoted]
    exact h.unsigned _ rfl

theorem IsOperand.requoted (h : kind.IsOperand) : kind.requoted.IsOperand := by
  cases kind <;> trivial

theorem IsLeftOf.requoted {op : BinaryOp} (h : kind.IsLeftOf op) : kind.requoted.IsLeftOf op := by
  cases kind <;> exact h

theorem IsRightOf.requoted {op : BinaryOp} (h : kind.IsRightOf op) :
    kind.requoted.IsRightOf op := by
  cases kind <;> exact h

theorem IsTest.requoted (h : kind.IsTest) : kind.requoted.IsTest := by
  cases kind <;> exact h

theorem IsAlternative.requoted (h : kind.IsAlternative) : kind.requoted.IsAlternative := by
  cases kind <;> exact h

theorem written_normalizeQuotes {e : Expr} (h : e.kind.requoted.Written) :
    e.normalizeQuotes.kind.Written := by
  rw [Expr.normalizeQuotes_kind]
  exact h

theorem Written.requoted (h : kind.Written) : kind.requoted.Written := by
  induction h with
  | const h => exact .const h.doubleQuoted
  | paren h ih => exact .paren (written_normalizeQuotes ih)
  | checkType h ht ih => exact .checkType (written_normalizeQuotes ih) ht
  | object hne hnames h ih =>
    refine .object (fun h => hne (List.map_eq_nil_iff.mp h)) ?_ ?_
    · intro field hfield
      obtain ⟨f, hf, rfl⟩ := List.mem_map.mp hfield
      exact hnames f hf
    · intro field hfield
      obtain ⟨f, hf, rfl⟩ := List.mem_map.mp hfield
      exact written_normalizeQuotes (ih f hf)
  | array h ih =>
    exact .array (List.forall_mem_map.mpr fun e he => written_normalizeQuotes (ih e he))
  | block h ih =>
    exact .block (List.forall_mem_map.mpr fun e he => written_normalizeQuotes (ih e he))
  | new hpath h ih =>
    exact .new hpath (List.forall_mem_map.mpr fun e he => written_normalizeQuotes (ih e he))
  | @vars vs isFinal isStatic hne hshape h ih =>
    have hshape' : ∀ v ∈ vs, Var.IsDeclared isFinal isStatic
        { v with init := v.init.map (·.normalizeQuotes) } := by
      intro v hv
      obtain ⟨hname, htype, hfinal, hstatic, hannotations⟩ := hshape v hv
      exact ⟨hname, htype, hfinal, hstatic, hannotations⟩
    refine .vars (fun h => hne (List.map_eq_nil_iff.mp h)) (List.forall_mem_map.mpr hshape')
      (List.forall_mem_map.mpr fun v hv e he => ?_)
    obtain ⟨e, hinit, rfl⟩ := Option.map_eq_some_iff.mp he
    exact written_normalizeQuotes (ih v hv e hinit)
  | function hkind hparams h hret hbody ih ihbody =>
    refine .function hkind (List.forall_mem_map.mpr fun p hp => ?_)
      (List.forall_mem_map.mpr fun p hp e he => ?_) hret (written_normalizeQuotes ihbody)
    · obtain ⟨hname, htype, hannotations⟩ := hparams p hp
      exact ⟨hname, htype, hannotations⟩
    · obtain ⟨e, hdefault, rfl⟩ := Option.map_eq_some_iff.mp he
      exact written_normalizeQuotes (ih p hp e hdefault)
  | forIn place pos hname hrange hbody ihrange ihbody =>
    exact .forIn place pos hname (written_normalizeQuotes ihrange) (written_normalizeQuotes ihbody)
  | cond htest hyes ihtest ihyes =>
    exact .cond (written_normalizeQuotes ihtest) (written_normalizeQuotes ihyes)
  | @condElse test yes no htest hyes hown hno ihtest ihyes ihno =>
    refine .condElse (written_normalizeQuotes ihtest) (written_normalizeQuotes ihyes) ?_
      (written_normalizeQuotes ihno)
    rw [yes.normalizeQuotes_kind, endsWith_requoted isElseless_requoted, hown]
  | loop htest hbody testFirst ihtest ihbody =>
    exact .loop (written_normalizeQuotes ihtest) (written_normalizeQuotes ihbody) testFirst
  | ret h ih =>
    refine .ret fun e he => ?_
    obtain ⟨e, hvalue, rfl⟩ := Option.map_eq_some_iff.mp he
    exact written_normalizeQuotes (ih e hvalue)
  | brk => exact .brk
  | cont => exact .cont
  | untyped h ih => exact .untyped (written_normalizeQuotes ih)
  | throw h ih => exact .throw (written_normalizeQuotes ih)
  | castTo h ht ih => exact .castTo (written_normalizeQuotes ih) ht
  | @cast e h hop ih =>
    refine .cast (written_normalizeQuotes ih) ?_
    rw [e.normalizeQuotes_kind]
    exact hop.requoted
  | annotated hname hargs h ihargs ih =>
    refine .annotated hname (List.forall_mem_map.mpr fun e he => ?_) (written_normalizeQuotes ih)
    exact written_normalizeQuotes (ihargs e he)
  | field h hclosed hname ih =>
    exact .field (written_normalizeQuotes ih) hclosed.normalizeQuotes hname
  | call h hclosed hargs ih ihargs =>
    refine .call (written_normalizeQuotes ih) hclosed.normalizeQuotes
      (List.forall_mem_map.mpr fun e he => ?_)
    exact written_normalizeQuotes (ihargs e he)
  | index h hclosed hi ih ihi =>
    exact .index (written_normalizeQuotes ih) hclosed.normalizeQuotes (written_normalizeQuotes ihi)
  | trailing h hclosed hop ih =>
    exact .trailing (written_normalizeQuotes ih) hclosed.normalizeQuotes hop
  | @leading op e h hop happly ih =>
    refine .leading (written_normalizeQuotes ih) ?_ ?_
    · rw [e.normalizeQuotes_kind]
      exact hop.requoted
    · rw [applyLeading_normalizeQuotes, happly]
      rfl
  | @binary op left right hop hleft hright hlevel hends hright' ihleft ihright =>
    refine .binary hop (written_normalizeQuotes ihleft) (written_normalizeQuotes ihright) ?_ ?_ ?_
    · rw [left.normalizeQuotes_kind]
      exact hlevel.requoted
    · rw [left.normalizeQuotes_kind, endsWith_requoted isGreedy_requoted, hends]
    · rw [right.normalizeQuotes_kind]
      exact hright'.requoted
  | @ternary test yes no htest hyes hno hlevel hends halternative ihtest ihyes ihno =>
    refine .ternary (written_normalizeQuotes ihtest) (written_normalizeQuotes ihyes)
      (written_normalizeQuotes ihno) ?_ ?_ ?_
    · rw [test.normalizeQuotes_kind]
      exact hlevel.requoted
    · rw [test.normalizeQuotes_kind, endsWith_requoted isGreedy_requoted, hends]
    · rw [no.normalizeQuotes_kind]
      exact halternative.requoted

end ExprKind

/-! ## Strings -/

theorem Expr.children_normalizeQuotes (e : Expr) :
    e.normalizeQuotes.children = e.children.map (·.normalizeQuotes) := by
  have hconstant (kind : ExprKind) : (kind.mapConstant Constant.doubleQuoted).children =
      kind.children := by
    cases kind <;> rfl
  rw [children, normalizeQuotes_kind, ExprKind.requoted, hconstant, ExprKind.children_mapChildren]
  rfl

theorem Expr.doubleQuoted_of_mem_nodes (e : Expr) :
    ∀ node ∈ e.normalizeQuotes.nodes, node.kind.DoubleQuoted := by
  induction e using Expr.induction_children with
  | h e ih =>
    refine forall_mem_nodes.mpr ⟨fun text h => ?_, ?_⟩
    · obtain ⟨kind, pos⟩ := e
      rw [normalizeQuotes_kind] at h
      cases kind with
      | const c => exact c.doubleQuoted_ne_single text (ExprKind.const.inj h)
      | _ => cases h
    · rw [children_normalizeQuotes]
      exact List.forall_mem_map.mpr ih

end HaxeMacro
