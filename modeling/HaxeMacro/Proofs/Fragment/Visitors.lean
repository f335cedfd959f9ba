import HaxeMacro.Proofs.Fragment.Addresses
import HaxeMacro.Proofs.Fragment.Children

/-! # Visitors

A visit from the bottom hands every expression to a visitor, which answers with what shall stand
there and may remember something. An expression is handed over with its parts as the visitor left
them. So a visitor that leaves everything alone meets exactly what the visit from the top comes by.
-/

namespace HaxeMacro

/-! ## Direct parts, one after the other -/

section
variable {m : Type → Type} [Monad m] [LawfulMonad m] {replace : Expr → Option (m Expr)}
  {visit : Expr → m Expr}

theorem transformExprs_eq_mapM (es : List Expr) :
    transformExprs replace visit es = es.mapM (·.transform replace visit) := by
  induction es with
  | nil => simp [transformExprs]
  | cons e es ih => simp [transformExprs, ih]

theorem eq_withParts_mapM {α : Type} (part : α → Option Expr) {put : α → Expr → α}
    {change : Expr → m Expr} {g : List α → m (List α)} (hnil : g [] = pure [])
    (hnone : ∀ a as, part a = none → g (a :: as) = do return a :: (← g as))
    (hsome : ∀ a as e, part a = some e →
      g (a :: as) = do return put a (← change e) :: (← g as)) (as : List α) :
    g as = withParts part put as <$> (as.filterMap part).mapM change := by
  induction as with
  | nil => simp [hnil, withParts]
  | cons a as ih =>
    cases h : part a with
    | none => simp [hnone a as h, ih, withParts, h]
    | some e => simp [hsome a as e h, ih, withParts, h]

theorem transformFields_eq_mapM (fields : List ObjectField) :
    transformFields replace visit fields =
      withValues fields <$> (fields.map (·.value)).mapM (·.transform replace visit) := by
  rw [← List.filterMap_eq_map']
  refine eq_withParts_mapM (fun field : ObjectField => some field.value) ?_ ?_ ?_ fields
  · simp [transformFields]
  · simp
  · rintro ⟨name, value, quoted⟩ fields _ ⟨⟩
    simp [transformFields]

theorem transformVars_eq_mapM (vs : List Var) :
    transformVars replace visit vs =
      withInits vs <$> (vs.filterMap (·.init)).mapM (·.transform replace visit) := by
  refine eq_withParts_mapM Var.init ?_ ?_ ?_ vs
  · simp [transformVars]
  · rintro ⟨name, type, init, isFinal, isStatic, annotations⟩ vs ⟨⟩
    simp [transformVars, transformOption]
  · rintro ⟨name, type, init, isFinal, isStatic, annotations⟩ vs _ ⟨⟩
    simp [transformVars, transformOption]

theorem transformParams_eq_mapM (ps : List Param) :
    transformParams replace visit ps =
      withDefaults ps <$> (ps.filterMap (·.default)).mapM (·.transform replace visit) := by
  refine eq_withParts_mapM Param.default ?_ ?_ ?_ ps
  · simp [transformParams]
  · rintro ⟨name, optional, type, default, annotations⟩ ps ⟨⟩
    simp [transformParams, transformOption]
  · rintro ⟨name, optional, type, default, annotations⟩ ps _ ⟨⟩
    simp [transformParams, transformOption]

theorem mapM_append_apart {α : Type} (change : Expr → m Expr) (make : List Expr → List Expr → α)
    (es es' : List Expr) :
    ((fun as => make (as.take es.length) (as.drop es.length)) <$> (es ++ es').mapM change) =
      do return make (← es.mapM change) (← es'.mapM change) := by
  induction es generalizing make with
  | nil => simp
  | cons e es ih => simpa using bind_congr fun a => ih fun as => make (a :: as)

def annotatedWith (entry : Metadata) (e : Expr) (args rest : List Expr) : ExprKind :=
  .annotated { entry with args } ((args ++ rest).getLastD e)

theorem withChildren_annotated (entry : Metadata) (e : Expr) :
    (ExprKind.annotated entry e).withChildren = fun es =>
      annotatedWith entry e (es.take entry.args.length) (es.drop entry.args.length) := by
  funext es
  simp only [annotatedWith, List.take_append_drop]
  rfl

theorem ExprKind.transform_eq (kind : ExprKind) :
    kind.transform replace visit =
      kind.withChildren <$> kind.children.mapM (·.transform replace visit) := by
  cases kind with
  | object fields =>
    simp [transform, transformFields_eq_mapM, children]
    rfl
  | array items | block items | new path items =>
    simp [transform, transformExprs_eq_mapM, children]
    rfl
  | vars vs =>
    simp [transform, transformVars_eq_mapM, children]
    rfl
  | call callee args => simp [transform, transformExprs_eq_mapM, children, withChildren]
  | function kind f =>
    obtain ⟨params, ret, body, typeParams⟩ := f
    refine Eq.trans ?_ (mapM_append_apart (·.transform replace visit)
      (fun defaults rest =>
        ExprKind.function kind ⟨withDefaults params defaults, ret, body.map rest.headD, typeParams⟩)
      (params.filterMap (·.default)) body.toList).symm
    cases body <;>
      simp [transform, FunctionDef.transform, transformParams_eq_mapM, transformOption]
  | cond test yes no => cases no <;> simp [transform, transformOption, children, withChildren]
  | ret value => cases value <;> simp [transform, transformOption, children, withChildren]
  | annotated entry e =>
    obtain ⟨name, args, pos⟩ := entry
    rw [withChildren_annotated, children, mapM_append_apart]
    simp [transform, Metadata.transform, transformExprs_eq_mapM, annotatedWith]
  | _ => simp [transform, children, withChildren]

end

namespace Expr

/-! ## Other direct parts, by number -/

def withPartsFrom (e : Expr) (part : Nat → Expr) : Expr :=
  { e with kind := e.kind.withChildren ((List.range e.children.length).map part) }

theorem children_withPartsFrom (e : Expr) (part : Nat → Expr) :
    (e.withPartsFrom part).children = (List.range e.children.length).map part :=
  ExprKind.children_withChildren (by simp [children])

theorem map_range_children {e : Expr} {es : List Expr} {part : Nat → Expr}
    (hlength : es.length = e.children.length)
    (h : ∀ i child, es[i]? = some child → part i = child) :
    (List.range e.children.length).map part = es := by
  refine List.ext_getElem (by simp [hlength]) fun i hi hi' => ?_
  simp [h i es[i] (List.getElem?_eq_getElem hi')]

theorem withPartsFrom_eq_self {e : Expr} {part : Nat → Expr}
    (h : ∀ i child, e.children[i]? = some child → part i = child) : e.withPartsFrom part = e := by
  rw [withPartsFrom, map_range_children rfl h]
  obtain ⟨kind, pos⟩ := e
  exact congrArg (Expr.mk · pos) kind.withChildren_children

/-! ## What a visitor is called with -/

section
variable {σ : Type} (visit : Expr → StateM σ Expr)

/-- The visitor is handed the first of each pair and answers with the second, pair after pair. -/
inductive Calls : σ → List (Expr × Expr) → σ → Prop
  | nil (st : σ) : Calls st [] st
  | cons {st st' st'' : σ} {given answer : Expr} {rest : List (Expr × Expr)}
    (h : (visit given).run st = (answer, st')) (hrest : Calls st' rest st'') :
    Calls st ((given, answer) :: rest) st''

/-- At every address the visitor is handed what stands there, with its direct parts as the visitor
answered for them. -/
def CallsUp (e : Expr) (call : Address → Expr × Expr) : Prop :=
  ∀ a node, e.at? a = some node → (call a).1 = node.withPartsFrom fun i => (call (a ++ [i])).2

variable {visit}

theorem Calls.append {st st' st'' : σ} {calls calls' : List (Expr × Expr)}
    (h : Calls visit st calls st') (h' : Calls visit st' calls' st'') :
    Calls visit st (calls ++ calls') st'' := by
  induction h with
  | nil => exact h'
  | cons hcall _ ih => exact .cons hcall (ih h')

theorem Calls.exists_of_mem {st st' : σ} {calls : List (Expr × Expr)}
    (h : Calls visit st calls st') {call : Expr × Expr} (hmem : call ∈ calls) :
    ∃ st, ((visit call.1).run st).1 = call.2 := by
  induction h with
  | nil => cases hmem
  | @cons st _ _ _ _ _ hcall _ ih =>
    rcases List.mem_cons.mp hmem with rfl | hmem
    · exact ⟨st, by rw [hcall]⟩
    · exact ih hmem

theorem run_bind_of_run {α β : Type} {action : StateM σ α} {k : α → StateM σ β} {st st' : σ} {a : α}
    (h : action.run st = (a, st')) : (action >>= k).run st = (k a).run st' := by
  rw [StateT.run_bind, h]
  rfl

theorem mapUpM_eq (visit : Expr → StateM σ Expr) (e : Expr) :
    e.mapUpM visit = e.children.mapM (·.mapUpM visit) >>= fun es =>
      visit { e with kind := e.kind.withChildren es } := by
  obtain ⟨kind, pos⟩ := e
  rw [mapUpM, transform]
  simp [ExprKind.transform_eq, mapUpM, children]

def joinCalls (root : Expr × Expr) (parts : List (Expr × (Address → Expr × Expr))) :
    Address → Expr × Expr
  | [] => root
  | i :: a => (parts[i]?.map fun part => part.2 a).getD root

theorem exists_parts {es : List Expr}
    (h : ∀ e ∈ es, ∀ st, ∃ call st', (e.mapUpM visit).run st = ((call []).2, st') ∧
      Calls visit st (e.addressesUp.map call) st' ∧ CallsUp e call) (st : σ) :
    ∃ (parts : List (Expr × (Address → Expr × Expr))) (st' : σ), parts.map (·.1) = es ∧
      (es.mapM fun e : Expr => e.mapUpM visit).run st = (parts.map fun part => (part.2 []).2, st') ∧
      Calls visit st (parts.flatMap fun part => part.1.addressesUp.map part.2) st' ∧
      ∀ part ∈ parts, CallsUp part.1 part.2 := by
  induction es generalizing st with
  | nil => exact ⟨[], st, rfl, rfl, .nil st, by simp⟩
  | cons e es ih =>
    rw [List.forall_mem_cons] at h
    obtain ⟨call, st', hrun, hcalls, hup⟩ := h.1 st
    obtain ⟨parts, st'', hparts, hrest, hcalls', hup'⟩ := ih h.2 st'
    refine ⟨(e, call) :: parts, st'', by simp [hparts], ?_, hcalls.append hcalls', ?_⟩
    · rw [List.mapM_cons, run_bind_of_run hrun, run_bind_of_run hrest]
      rfl
    · exact List.forall_mem_cons.mpr ⟨hup, hup'⟩

theorem map_joinCalls (root : Expr × Expr) (parts : List (Expr × (Address → Expr × Expr)))
    (list : Expr → List Address) :
    (addressesIn list (parts.map (·.1))).map (joinCalls root parts) =
      parts.flatMap fun part => (list part.1).map part.2 := by
  have hpart : ∀ part ∈ parts.zipIdx,
      ((list part.1.1).map (part.2 :: ·)).map (joinCalls root parts) =
        (list part.1.1).map part.1.2 := by
    intro part hpart
    rw [List.map_map]
    refine List.map_congr_left fun a _ => ?_
    simp [joinCalls, List.mem_zipIdx_iff_getElem?.mp hpart]
  conv_rhs => rw [← List.zipIdx_map_fst 0 parts, List.flatMap_map]
  rw [addressesIn, List.zipIdx_map, List.flatMap_map, List.map_flatMap]
  exact List.flatMap_congr hpart

/-- What a visit from the bottom does, whatever the visitor. -/
theorem exists_callsUp (visit : Expr → StateM σ Expr) (e : Expr) (st : σ) :
    ∃ call st', (e.mapUpM visit).run st = ((call []).2, st') ∧
      Calls visit st (e.addressesUp.map call) st' ∧ CallsUp e call := by
  induction e using Expr.induction_children generalizing st with
  | h e ih =>
    obtain ⟨parts, st', hparts, hrun, hcalls, hup⟩ := exists_parts ih st
    -- The expression is handed to the visitor after its parts, with their answers in their places.
    let answers := parts.map fun part => (part.2 []).2
    let given : Expr := { e with kind := e.kind.withChildren answers }
    obtain ⟨answer, st'', hroot⟩ : ∃ answer st'', (visit given).run st' = (answer, st'') :=
      ⟨_, _, rfl⟩
    refine ⟨joinCalls (given, answer) parts, st'', ?_, ?_, ?_⟩
    · rw [mapUpM_eq, run_bind_of_run hrun]
      exact hroot
    · rw [addressesUp_eq, ← hparts, List.map_append, map_joinCalls]
      exact hcalls.append (.cons hroot (.nil _))
    · intro a node hnode
      cases a with
      | nil =>
        cases hnode
        have hlength : answers.length = e.children.length := by simp [answers, ← hparts]
        have hchild : ∀ i child, answers[i]? = some child →
            (joinCalls (given, answer) parts ([] ++ [i])).2 = child := by
          intro i child hi
          simp only [answers, List.getElem?_map, Option.map_eq_some_iff] at hi
          obtain ⟨part, hpart, rfl⟩ := hi
          simp [joinCalls, hpart]
        rw [withPartsFrom, map_range_children hlength hchild]
        rfl
      | cons i a =>
        rw [at?_cons, ← hparts, List.getElem?_map] at hnode
        cases hpart : parts[i]? with
        | none => simp [hpart] at hnode
        | some part =>
          rw [hpart] at hnode
          have h := hup part (List.mem_of_getElem? hpart) a node hnode
          simpa [joinCalls, hpart] using h

/-! ## Visitors that leave everything alone -/

def LeavesAlone (visit : Expr → StateM σ Expr) : Prop :=
  ∀ node st, ((visit node).run st).1 = node

theorem Calls.exists_answer {e : Expr} {call : Address → Expr × Expr} {st st' : σ}
    (h : Calls visit st (e.addressesUp.map call) st') {a : Address} {node : Expr}
    (hnode : e.at? a = some node) : ∃ st, ((visit (call a).1).run st).1 = (call a).2 :=
  h.exists_of_mem (List.mem_map_of_mem (mem_addressesUp.mpr (by simp [hnode])))

theorem CallsUp.eq_self {e : Expr} {call : Address → Expr × Expr} (h : CallsUp e call)
    (hsame : ∀ a node, e.at? a = some node → (call a).1 = (call a).2) {a : Address} {node : Expr}
    (hnode : e.at? a = some node) : call a = (node, node) := by
  induction node using Expr.induction_children generalizing a with
  | h node ih =>
    have hgiven : (call a).1 = node := by
      rw [h a node hnode]
      refine withPartsFrom_eq_self fun i child hchild => ?_
      rw [ih child (List.mem_of_getElem? hchild)]
      simp [at?_append, hnode, at?_cons, hchild]
    exact Prod.ext hgiven ((hsame a node hnode).symm.trans hgiven)

theorem map_eq_map_filterMap {e : Expr} {call : Address → Expr × Expr} {as : List Address}
    (h : ∀ a ∈ as, ∃ node, e.at? a = some node ∧ call a = (node, node)) :
    as.map call = (as.filterMap e.at?).map fun node => (node, node) := by
  induction as with
  | nil => rfl
  | cons a as ih =>
    rw [List.forall_mem_cons] at h
    obtain ⟨node, hnode, hcall⟩ := h.1
    rw [List.map_cons, List.filterMap_cons_some hnode, List.map_cons, hcall, ih h.2]

/-- A visitor that leaves everything alone is handed what stands at all the addresses. -/
theorem run_of_leavesAlone (h : LeavesAlone visit) (e : Expr) (st : σ) :
    ∃ st', (e.mapUpM visit).run st = (e, st') ∧
      Calls visit st ((e.addressesUp.filterMap e.at?).map fun node => (node, node)) st' := by
  obtain ⟨call, st', hrun, hcalls, hup⟩ := exists_callsUp visit e st
  have hsame (a : Address) (node : Expr) (hnode : e.at? a = some node) :
      (call a).1 = (call a).2 := by
    obtain ⟨st, hst⟩ := hcalls.exists_answer hnode
    rw [← hst, h]
  refine ⟨st', ?_, ?_⟩
  · rw [hrun, hup.eq_self hsame (at?_nil e)]
  · rw [map_eq_map_filterMap fun a ha => ?_] at hcalls
    · exact hcalls
    · obtain ⟨node, hnode⟩ := Option.isSome_iff_exists.mp (mem_addressesUp.mp ha)
      exact ⟨node, hnode, hup.eq_self hsame hnode⟩

def pushNode (node : Expr) : StateM (List Expr) Expr := do
  modify (node :: ·)
  pure node

theorem Calls.push {st st' : List Expr} {calls : List (Expr × Expr)}
    (h : Calls pushNode st calls st') : st' = (calls.map (·.1)).reverse ++ st := by
  induction h with
  | nil => rfl
  | cons h _ ih =>
    cases h
    simp [ih]

theorem nodesUp_eq_filterMap (e : Expr) : e.nodesUp = e.addressesUp.filterMap e.at? := by
  have hpush : LeavesAlone pushNode := fun _ _ => rfl
  obtain ⟨st', hrun, hcalls⟩ := run_of_leavesAlone hpush e []
  have hnodes : e.nodesUp = ((e.mapUpM pushNode).run []).2.reverse := rfl
  rw [hnodes, hrun, hcalls.push]
  simp [Function.comp_def]

/-! ## Visitors that rewrite constants -/

def isConstant : Expr → Bool
  | ⟨.const _, _⟩ => true
  | _ => false

/-- The visitor answers to a constant with a constant, and leaves everything else alone. -/
structure RewritesConstants (visit : Expr → StateM σ Expr) : Prop where
  constant : ∀ node st, node.isConstant = true → ((visit node).run st).1.isConstant = true
  other : ∀ node st, node.isConstant = false → ((visit node).run st).1 = node

theorem children_of_isConstant {e : Expr} (h : e.isConstant = true) : e.children = [] := by
  obtain ⟨kind, pos⟩ := e
  cases kind <;> first | rfl | cases h

theorem isConstant_withPartsFrom (e : Expr) (part : Nat → Expr) :
    (e.withPartsFrom part).isConstant = e.isConstant := by
  obtain ⟨kind, pos⟩ := e
  refine ExprKind.of_withChildren (k := fun kind => isConstant ⟨kind, pos⟩) (fun g kind => ?_) ?_
  · cases kind <;> rfl
  · simp [children]

/-- What the visitor is handed for an expression, and its answer: a constant as it was, for which
there is another one, and everything else as it stays, with other parts but in the form it had. -/
def ConstantCall (node : Expr) (call : Expr × Expr) : Prop :=
  if node.isConstant then call.1 = node ∧ call.2.isConstant = true
  else call.1 = call.2 ∧ call.2 = { node with kind := node.kind.withChildren call.2.children }

theorem CallsUp.constantCall {e : Expr} {call : Address → Expr × Expr} (hup : CallsUp e call)
    (h : RewritesConstants visit) {a : Address} {node : Expr} (hnode : e.at? a = some node)
    {st : σ} (hst : ((visit (call a).1).run st).1 = (call a).2) :
    ConstantCall node (call a) ∧
      (call a).2.children =
        (List.range node.children.length).map fun i => (call (a ++ [i])).2 := by
  have hgiven := hup a node hnode
  unfold ConstantCall
  cases hconstant : node.isConstant with
  | true =>
    have hnone := children_of_isConstant hconstant
    have hself : (call a).1 = node :=
      hgiven.trans (withPartsFrom_eq_self fun i child hchild => by simp [hnone] at hchild)
    have hanswer : (call a).2.isConstant = true := by
      rw [← hst]
      exact h.constant _ st (hself ▸ hconstant)
    simp [hself, hanswer, hnone, children_of_isConstant hanswer]
  | false =>
    have hanswer : (call a).1 = (call a).2 := by
      rw [← hst]
      refine (h.other _ st ?_).symm
      rw [hgiven, isConstant_withPartsFrom, hconstant]
    have hchildren : (call a).2.children =
        (List.range node.children.length).map fun i => (call (a ++ [i])).2 := by
      rw [← hanswer, hgiven, children_withPartsFrom]
    rw [if_neg Bool.false_ne_true, hchildren]
    exact ⟨⟨hanswer, hanswer.symm.trans hgiven⟩, rfl⟩

theorem at?_answer {e : Expr} {call : Address → Expr × Expr}
    (h : ∀ a node, e.at? a = some node → (call a).2.children =
      (List.range node.children.length).map fun i => (call (a ++ [i])).2)
    {a : Address} {node : Expr} (hnode : e.at? a = some node) (b : Address) :
    (call a).2.at? b = (node.at? b).map fun _ => (call (a ++ b)).2 := by
  induction b generalizing a node with
  | nil => simp
  | cons i b ih =>
    rw [at?_cons, at?_cons, h a node hnode, List.getElem?_map]
    by_cases hi : i < node.children.length
    · have hchild : e.at? (a ++ [i]) = some node.children[i] := by
        simp [at?_append, hnode, at?_cons, hi]
      have hrest := ih hchild
      rw [List.append_assoc] at hrest
      simpa [hi] using hrest
    · simp [hi]

/-- A visitor that rewrites constants is called at all the addresses, and what it answers is what
stands there afterwards. -/
theorem run_of_rewritesConstants (h : RewritesConstants visit) (e : Expr) (st : σ) :
    ∃ e' call st', (e.mapUpM visit).run st = (e', st') ∧
      Calls visit st (e.addressesUp.map call) st' ∧
      ∀ a, e'.at? a = (e.at? a).map (fun _ => (call a).2) ∧
        ∀ node ∈ e.at? a, ConstantCall node (call a) := by
  obtain ⟨call, st', hrun, hcalls, hup⟩ := exists_callsUp visit e st
  have hcall (a : Address) (node : Expr) (hnode : e.at? a = some node) :
      ConstantCall node (call a) ∧ (call a).2.children =
        (List.range node.children.length).map fun i => (call (a ++ [i])).2 := by
    obtain ⟨st, hst⟩ := hcalls.exists_answer hnode
    exact hup.constantCall h hnode hst
  refine ⟨_, call, st', hrun, hcalls, fun a => ⟨?_, fun node ha => (hcall a node ha).1⟩⟩
  exact at?_answer (fun a node ha => (hcall a node ha).2) (at?_nil e) a

end

/-- The two visits come by the same addresses, each of them once: the one from the top by an
expression before what stands in it, the one from the bottom after that, and both by the parts of
an expression from left to right. A visitor that leaves everything alone leaves the expression as
it is. One that rewrites constants is handed each of them once, its answers stand in their place,
and all else stays. -/
theorem visits_agree (e : Expr) :
    ((∀ a, a ∈ e.addressesDown ↔ (e.at? a).isSome = true) ∧ e.addressesDown.Nodup ∧
      e.addressesUp.Perm e.addressesDown) ∧
    (e.addressesDown.Pairwise Address.Preorder ∧ e.addressesUp.Pairwise Address.Postorder) ∧
    (e.nodes = e.addressesDown.filterMap e.at? ∧ e.nodesUp = e.addressesUp.filterMap e.at?) ∧
    (∀ {σ : Type} (visit : Expr → StateM σ Expr) (st : σ), LeavesAlone visit →
      ∃ st', (e.mapUpM visit).run st = (e, st') ∧
        Calls visit st ((e.addressesUp.filterMap e.at?).map fun node => (node, node)) st') ∧
    ∀ {σ : Type} (visit : Expr → StateM σ Expr) (st : σ), RewritesConstants visit →
      ∃ e' call st', (e.mapUpM visit).run st = (e', st') ∧
        Calls visit st (e.addressesUp.map call) st' ∧
        ∀ a, e'.at? a = (e.at? a).map (fun _ => (call a).2) ∧
          ∀ node ∈ e.at? a, ConstantCall node (call a) :=
  ⟨⟨fun _ => mem_addressesDown, e.nodup_addressesDown, e.perm_addressesUp⟩,
    ⟨e.pairwise_addressesDown, e.pairwise_addressesUp⟩,
    ⟨e.nodes_eq_filterMap, e.nodesUp_eq_filterMap⟩,
    fun _ st h => run_of_leavesAlone h e st, fun _ st h => run_of_rewritesConstants h e st⟩

def callOf (name : String) (arg : Expr) (number : String) : Expr :=
  ⟨.call (.ident name .null) [⟨.array [arg], .null⟩, .int number .null], .null⟩

def markIdent : Expr → StateM Nat Expr
  | ⟨.const (.ident name), pos⟩ => do
    modify (· + 1)
    return .ident (name ++ "_") pos
  | node => return node

def countNode (node : Expr) : StateM Nat Expr := do
  modify (· + 1)
  return node

theorem visits_agree_call :
    let e := callOf "f" (.ident "a" .null) "1"
    LeavesAlone countNode ∧ RewritesConstants markIdent ∧
      Calls countNode 0 ((e.addressesUp.filterMap e.at?).map fun node => (node, node)) 5 ∧
      ∃ call, Calls markIdent 0 (e.addressesUp.map call) 2 ∧
        ∀ a, (callOf "f_" (.ident "a_" .null) "1").at? a = (e.at? a).map (fun _ => (call a).2) ∧
          ∀ node ∈ e.at? a, ConstantCall node (call a) := by
  intro e
  have hcount : LeavesAlone countNode := fun _ _ => rfl
  have hmark : RewritesConstants markIdent := by
    constructor <;> rintro ⟨kind, pos⟩ st h
    · obtain ⟨c, rfl⟩ : ∃ c, kind = .const c := by cases kind <;> first | exact ⟨_, rfl⟩ | cases h
      cases c <;> rfl
    · cases kind <;> first | rfl | cases h
  obtain ⟨-, -, -, hleaves, hrewrites⟩ := visits_agree e
  obtain ⟨st', hrun, hcalls⟩ := hleaves countNode 0 hcount
  obtain ⟨e', call, st'', hrun', hcalls', hat⟩ := hrewrites markIdent 0 hmark
  have hcounted : (e.mapUpM countNode).run 0 = (e, 5) := rfl
  have hmarked : (e.mapUpM markIdent).run 0 = (callOf "f_" (.ident "a_" .null) "1", 2) := rfl
  cases hcounted.symm.trans hrun
  cases hmarked.symm.trans hrun'
  exact ⟨hcount, hmark, hcalls, call, hcalls', hat⟩

end Expr

end HaxeMacro
