import HaxeMacro.Entries
import HaxeMacro.Fragment.Traversal

/-! # Visits

A replacement from the bottom replaces the direct parts of an expression and then the expression. So
two of them, one after the other, can be told apart at every expression. A visit from the top comes
by an expression and then by what stands in its direct parts.
-/

namespace HaxeMacro

/-! ## Direct parts -/

def FunctionDef.mapChildren (g : Expr → Expr) (f : FunctionDef) : FunctionDef :=
  { f with
    params := f.params.map fun p => { p with default := p.default.map g }
    body := f.body.map g }

/-- The form with `g` applied to the direct sub-expressions. -/
def ExprKind.mapChildren (g : Expr → Expr) : ExprKind → ExprKind
  | .const c => .const c
  | .index a b => .index (g a) (g b)
  | .binary op a b => .binary op (g a) (g b)
  | .field e name => .field (g e) name
  | .paren e => .paren (g e)
  | .object fields => .object (fields.map fun field => { field with value := g field.value })
  | .array items => .array (items.map g)
  | .call callee args => .call (g callee) (args.map g)
  | .new path args => .new path (args.map g)
  | .unary op after e => .unary op after (g e)
  | .vars vs => .vars (vs.map fun v => { v with init := v.init.map g })
  | .function kind f => .function kind (f.mapChildren g)
  | .block items => .block (items.map g)
  | .forIn head body => .forIn (g head) (g body)
  | .cond test yes no => .cond (g test) (g yes) (no.map g)
  | .loop test body first => .loop (g test) (g body) first
  | .ret value => .ret (value.map g)
  | .brk => .brk
  | .cont => .cont
  | .untyped e => .untyped (g e)
  | .throw e => .throw (g e)
  | .cast e type => .cast (g e) type
  | .ternary test yes no => .ternary (g test) (g yes) (g no)
  | .checkType e type => .checkType (g e) type
  | .annotated entry e => .annotated { entry with args := entry.args.map g } (g e)

theorem FunctionDef.mapChildren_mapChildren (g h : Expr → Expr) (f : FunctionDef) :
    (f.mapChildren g).mapChildren h = f.mapChildren (h ∘ g) := by
  simp [mapChildren, Function.comp_def]

theorem ExprKind.mapChildren_mapChildren (g h : Expr → Expr) (kind : ExprKind) :
    (kind.mapChildren g).mapChildren h = kind.mapChildren (h ∘ g) := by
  cases kind <;> simp [mapChildren, Function.comp_def, FunctionDef.mapChildren_mapChildren]

theorem FunctionDef.mapChildren_congr {g h : Expr → Expr} {f : FunctionDef}
    (heq : ∀ e ∈ f.children, g e = h e) : f.mapChildren g = f.mapChildren h := by
  have hparams : f.params.map (fun p => { p with default := p.default.map g }) =
      f.params.map fun p => { p with default := p.default.map h } := by
    refine List.map_congr_left fun p hp => ?_
    rw [Option.map_congr fun e he => heq e ?_]
    exact List.mem_append_left _ (List.mem_filterMap.mpr ⟨p, hp, he⟩)
  have hbody : f.body.map g = f.body.map h :=
    Option.map_congr fun e he => heq e (List.mem_append_right _ (Option.mem_toList.mpr he))
  rw [mapChildren, hparams, hbody, mapChildren]

theorem ExprKind.mapChildren_congr {g h : Expr → Expr} {kind : ExprKind}
    (heq : ∀ e ∈ kind.children, g e = h e) : kind.mapChildren g = kind.mapChildren h := by
  cases kind with
  | vars vs =>
    refine congrArg ExprKind.vars (List.map_congr_left fun v hv => ?_)
    rw [Option.map_congr fun e he => heq e ?_]
    exact List.mem_filterMap.mpr ⟨v, hv, he⟩
  | function kind f => exact congrArg (ExprKind.function kind) (FunctionDef.mapChildren_congr heq)
  | cond test yes no =>
    simp only [children, List.forall_mem_cons] at heq
    obtain ⟨htest, hyes, hno⟩ := heq
    rw [mapChildren, htest, hyes, Option.map_congr fun e he => hno e (Option.mem_toList.mpr he)]
    rfl
  | ret value =>
    exact congrArg ExprKind.ret (Option.map_congr fun e he => heq e (Option.mem_toList.mpr he))
  | _ => simp_all [mapChildren, children]

/-! ## All parts -/

section
variable (f : Expr → Expr)

/-- The parts of a form, each replaced from the bottom. -/
def ExprKind.mapUp (kind : ExprKind) : ExprKind :=
  Id.run (kind.transform (fun _ => none) fun node => pure (f node))

theorem transformExprs_eq_map (es : List Expr) :
    transformExprs (m := Id) (fun _ => none) f es = es.map (·.mapUp f) :=
  eq_map_of_cons rfl (fun _ _ => rfl) es

theorem transformOption_eq_map (e? : Option Expr) :
    transformOption (m := Id) (fun _ => none) f e? = e?.map (·.mapUp f) := by
  cases e? <;> rfl

theorem transformFields_eq_map (fields : List ObjectField) :
    transformFields (m := Id) (fun _ => none) f fields =
      fields.map fun field => { field with value := field.value.mapUp f } := by
  refine eq_map_of_cons rfl ?_ fields
  rintro ⟨name, value, quoted⟩ fields
  rfl

theorem transformVars_eq_map (vs : List Var) :
    transformVars (m := Id) (fun _ => none) f vs =
      vs.map fun v => { v with init := v.init.map (·.mapUp f) } := by
  refine eq_map_of_cons rfl ?_ vs
  rintro ⟨name, type, init, isFinal, isStatic, annotations⟩ vs
  rw [← transformOption_eq_map]
  rfl

theorem transformParams_eq_map (ps : List Param) :
    transformParams (m := Id) (fun _ => none) f ps =
      ps.map fun p => { p with default := p.default.map (·.mapUp f) } := by
  refine eq_map_of_cons rfl ?_ ps
  rintro ⟨name, optional, type, default, annotations⟩ ps
  rw [← transformOption_eq_map]
  rfl

theorem Expr.mapUp_eq (kind : ExprKind) (pos : Position) :
    Expr.mapUp f ⟨kind, pos⟩ = f ⟨kind.mapChildren (·.mapUp f), pos⟩ := by
  have hkind : kind.mapUp f = kind.mapChildren (·.mapUp f) := by
    cases kind with
    | object fields => exact congrArg ExprKind.object (transformFields_eq_map f fields)
    | array items => exact congrArg ExprKind.array (transformExprs_eq_map f items)
    | block items => exact congrArg ExprKind.block (transformExprs_eq_map f items)
    | call callee args => exact congrArg (ExprKind.call _) (transformExprs_eq_map f args)
    | new path args => exact congrArg (ExprKind.new path) (transformExprs_eq_map f args)
    | vars vs => exact congrArg ExprKind.vars (transformVars_eq_map f vs)
    | function kind func =>
      obtain ⟨params, ret, body, typeParams⟩ := func
      rw [ExprKind.mapChildren, FunctionDef.mapChildren, ← transformParams_eq_map,
        ← transformOption_eq_map]
      rfl
    | cond test yes no => exact congrArg (ExprKind.cond _ _) (transformOption_eq_map f no)
    | ret value => exact congrArg ExprKind.ret (transformOption_eq_map f value)
    | annotated entry e =>
      obtain ⟨name, args, pos⟩ := entry
      rw [ExprKind.mapChildren, ← transformExprs_eq_map]
      rfl
    | _ => rfl
  rw [← hkind]
  rfl

end

/-! ## From the top -/

section
variable (enter : Expr → Bool)

theorem eq_flatMap_of_cons {α β : Type} {g : List α → List β} {f : α → List β} (hnil : g [] = [])
    (hcons : ∀ a as, g (a :: as) = f a ++ g as) (as : List α) : g as = as.flatMap f := by
  induction as with
  | nil => exact hnil
  | cons a as ih => rw [hcons, ih, List.flatMap_cons]

theorem nodesOfExprs_eq_flatMap (es : List Expr) :
    nodesOfExprs enter es = es.flatMap (·.nodesWhere enter) :=
  eq_flatMap_of_cons rfl (fun _ _ => rfl) es

theorem nodesOfOption_eq_flatMap (e? : Option Expr) :
    nodesOfOption enter e? = e?.toList.flatMap (·.nodesWhere enter) := by
  cases e? with
  | none => rfl
  | some e => exact (List.append_nil _).symm

theorem nodesOfFields_eq_flatMap (fields : List ObjectField) :
    nodesOfFields enter fields = fields.flatMap (·.value.nodesWhere enter) := by
  refine eq_flatMap_of_cons rfl ?_ fields
  rintro ⟨name, value, quoted⟩ fields
  rfl

theorem nodesOfVars_eq_flatMap (vs : List Var) :
    nodesOfVars enter vs = (vs.filterMap (·.init)).flatMap (·.nodesWhere enter) := by
  induction vs with
  | nil => rfl
  | cons v vs ih =>
    obtain ⟨name, type, init, isFinal, isStatic, annotations⟩ := v
    rw [nodesOfVars, ih, nodesOfOption_eq_flatMap]
    cases init <;> simp

theorem nodesOfParams_eq_flatMap (ps : List Param) :
    nodesOfParams enter ps = (ps.filterMap (·.default)).flatMap (·.nodesWhere enter) := by
  induction ps with
  | nil => rfl
  | cons p ps ih =>
    obtain ⟨name, optional, type, default, annotations⟩ := p
    rw [nodesOfParams, ih, nodesOfOption_eq_flatMap]
    cases default <;> simp

/-- The visit of a form comes by what stands in its direct parts. -/
theorem ExprKind.nodesWhere_eq (kind : ExprKind) :
    kind.nodesWhere enter = kind.children.flatMap (·.nodesWhere enter) := by
  cases kind with
  | object fields =>
    rw [children, List.flatMap_map]
    exact nodesOfFields_eq_flatMap enter fields
  | array items | block items => exact nodesOfExprs_eq_flatMap enter items
  | call callee args =>
    exact congrArg (callee.nodesWhere enter ++ ·) (nodesOfExprs_eq_flatMap enter args)
  | new path args => exact nodesOfExprs_eq_flatMap enter args
  | vars vs => exact nodesOfVars_eq_flatMap enter vs
  | function kind func =>
    obtain ⟨params, ret, body, typeParams⟩ := func
    rw [children, FunctionDef.children, List.flatMap_append, ← nodesOfParams_eq_flatMap,
      ← nodesOfOption_eq_flatMap]
    rfl
  | cond test yes no =>
    rw [nodesWhere, nodesOfOption_eq_flatMap]
    rfl
  | ret value => exact nodesOfOption_eq_flatMap enter value
  | annotated entry e =>
    obtain ⟨name, args, pos⟩ := entry
    rw [nodesWhere, Metadata.nodesWhere, nodesOfExprs_eq_flatMap, children, List.flatMap_append]
    simp
  | _ => simp [nodesWhere, children]

end

theorem Expr.nodes_eq (e : Expr) : e.nodes = e :: e.children.flatMap nodes := by
  obtain ⟨kind, pos⟩ := e
  rw [nodes, nodesWhere, if_pos rfl, ExprKind.nodesWhere_eq]
  rfl

theorem Expr.forall_mem_nodes {P : Expr → Prop} {e : Expr} :
    (∀ node ∈ e.nodes, P node) ↔ P e ∧ ∀ child ∈ e.children, ∀ node ∈ child.nodes, P node := by
  rw [nodes_eq, List.forall_mem_cons, List.forall_mem_flatMap]

theorem Expr.length_nodes_lt {e child : Expr} (h : child ∈ e.children) :
    child.nodes.length < e.nodes.length := by
  have hle := (List.sublist_flatten_of_mem (List.mem_map_of_mem (f := nodes) h)).length_le
  rw [nodes_eq e, List.length_cons, List.flatMap_def]
  omega

/-- What holds of an expression if it holds of its direct parts holds of every expression. -/
theorem Expr.induction_children {motive : Expr → Prop}
    (h : ∀ e, (∀ child ∈ e.children, motive child) → motive e) (e : Expr) : motive e :=
  h e fun child _ => induction_children h child
termination_by e.nodes.length
decreasing_by exact length_nodes_lt (by assumption)

/-- What holds of an expression and goes on to direct parts holds of every expression inside. -/
theorem Expr.forall_nodes {P : Expr → Prop} (hP : ∀ e, P e → ∀ child ∈ e.children, P child)
    {e : Expr} (he : P e) : ∀ node ∈ e.nodes, P node := by
  induction e using Expr.induction_children with
  | h e ih =>
    exact forall_mem_nodes.mpr ⟨he, fun child hchild => ih child hchild (hP e he child hchild)⟩

end HaxeMacro
