import HaxeMacro.Proofs.Fragment.Visits
import Mathlib.Data.List.Basic

/-! # Replacing direct parts

The direct sub-expressions of a form are a list, and another list of the same length can stand in
its place. A visit with a state goes along that list.
-/

namespace HaxeMacro

/-! ## Other direct parts -/

def withParts {α : Type} (part : α → Option Expr) (put : α → Expr → α) :
    List α → List Expr → List α
  | [], _ => []
  | a :: as, es =>
    match part a, es with
    | some _, e :: es => put a e :: withParts part put as es
    | _, es => a :: withParts part put as es

def withInits : List Var → List Expr → List Var :=
  withParts (·.init) fun v e => { v with init := some e }

def withDefaults : List Param → List Expr → List Param :=
  withParts (·.default) fun p e => { p with default := some e }

def withValues : List ObjectField → List Expr → List ObjectField :=
  withParts (some ·.value) fun field e => { field with value := e }

def FunctionDef.withChildren (f : FunctionDef) (es : List Expr) : FunctionDef :=
  let count := (f.params.filterMap (·.default)).length
  { f with
    params := withDefaults f.params (es.take count)
    body := f.body.map fun body => (es.drop count).headD body }

/-- The form with other direct sub-expressions, in the order of the visits. -/
def ExprKind.withChildren : ExprKind → List Expr → ExprKind
  | .index _ _, [a, b] => .index a b
  | .binary op _ _, [a, b] => .binary op a b
  | .field _ name, [e] => .field e name
  | .paren _, [e] => .paren e
  | .object fields, es => .object (withValues fields es)
  | .array _, es => .array es
  | .call _ _, callee :: args => .call callee args
  | .new path _, es => .new path es
  | .unary op after _, [e] => .unary op after e
  | .vars vs, es => .vars (withInits vs es)
  | .function kind f, es => .function kind (f.withChildren es)
  | .block _, es => .block es
  | .forIn _ _, [head, body] => .forIn head body
  | .cond _ _ none, [test, yes] => .cond test yes none
  | .cond _ _ (some _), [test, yes, no] => .cond test yes (some no)
  | .loop _ _ first, [test, body] => .loop test body first
  | .ret (some _), [value] => .ret (some value)
  | .untyped _, [e] => .untyped e
  | .throw _, [e] => .throw e
  | .cast _ type, [e] => .cast e type
  | .ternary _ _ _, [test, yes, no] => .ternary test yes no
  | .checkType _ type, [e] => .checkType e type
  | .annotated entry e, es =>
    .annotated { entry with args := es.take entry.args.length } (es.getLastD e)
  | kind, _ => kind

theorem filterMap_withParts {α : Type} (part : α → Option Expr) {put : α → Expr → α}
    (hput : ∀ a e, part (put a e) = some e) {as : List α} {es : List Expr}
    (h : es.length = (as.filterMap part).length) :
    (withParts part put as es).filterMap part = es := by
  induction as generalizing es with
  | nil => exact (List.length_eq_zero_iff.mp h).symm
  | cons a as ih =>
    cases hpart : part a with
    | none =>
      rw [List.filterMap_cons_none hpart] at h
      simp only [withParts, hpart, List.filterMap_cons_none, ih h]
    | some e =>
      rw [List.filterMap_cons_some hpart, List.length_cons] at h
      obtain ⟨x, xs, rfl⟩ := List.exists_cons_of_length_eq_add_one h
      simp only [withParts, hpart, List.filterMap_cons_some (hput a x), ih (Nat.succ.inj h)]

theorem withParts_map {α : Type} {part : α → Option Expr} {put : α → Expr → α} {g : Expr → Expr}
    {onItem : α → α} (hsome : ∀ a e, part a = some e → put a (g e) = onItem a)
    (hnone : ∀ a, part a = none → a = onItem a) (as : List α) :
    withParts part put as ((as.filterMap part).map g) = as.map onItem := by
  induction as with
  | nil => rfl
  | cons a as ih =>
    cases hpart : part a with
    | none =>
      rw [List.filterMap_cons_none hpart, List.map_cons, ← hnone a hpart, ← ih]
      simp only [withParts, hpart]
    | some e =>
      rw [List.filterMap_cons_some hpart, List.map_cons, List.map_cons, ← hsome a e hpart, ← ih]
      simp only [withParts, hpart]

theorem map_withParts {α : Type} (part : α → Option Expr) {put : α → Expr → α} {g : Expr → Expr}
    {onItem : α → α} (hput : ∀ a e, onItem (put a e) = put a (g e))
    (hnone : ∀ a, part a = none → onItem a = a) {as : List α} {es : List Expr}
    (h : es.length = (as.filterMap part).length) :
    (withParts part put as es).map onItem = withParts part put as (es.map g) := by
  induction as generalizing es with
  | nil => rfl
  | cons a as ih =>
    cases hpart : part a with
    | none =>
      rw [List.filterMap_cons_none hpart] at h
      simp only [withParts, hpart, List.map_cons, hnone a hpart, ih h]
    | some e =>
      rw [List.filterMap_cons_some hpart, List.length_cons] at h
      obtain ⟨x, xs, rfl⟩ := List.exists_cons_of_length_eq_add_one h
      simp only [withParts, hpart, List.map_cons, hput, ih (Nat.succ.inj h)]

theorem withParts_withParts {α : Type} (part : α → Option Expr) {put : α → Expr → α}
    (hpart : ∀ a e, part (put a e) = some e) (hput : ∀ a e e', put (put a e) e' = put a e')
    {as : List α} {es es' : List Expr} (h : es.length = (as.filterMap part).length)
    (h' : es'.length = (as.filterMap part).length) :
    withParts part put (withParts part put as es) es' = withParts part put as es' := by
  induction as generalizing es es' with
  | nil => rfl
  | cons a as ih =>
    cases ha : part a with
    | none =>
      rw [List.filterMap_cons_none ha] at h h'
      simp only [withParts, ha, ih h h']
    | some e =>
      rw [List.filterMap_cons_some ha, List.length_cons] at h h'
      obtain ⟨x, xs, rfl⟩ := List.exists_cons_of_length_eq_add_one h
      obtain ⟨y, ys, rfl⟩ := List.exists_cons_of_length_eq_add_one h'
      simp only [withParts, ha, hpart, hput, ih (Nat.succ.inj h) (Nat.succ.inj h')]

theorem withInits_map (g : Expr → Expr) (vs : List Var) :
    withInits vs ((vs.filterMap (·.init)).map g) =
      vs.map fun v => { v with init := v.init.map g } := by
  refine withParts_map (fun v e he => ?_) (fun v he => ?_) vs
  · rw [he]
    rfl
  · obtain ⟨⟩ := v
    cases he
    rfl

theorem withDefaults_map (g : Expr → Expr) (ps : List Param) :
    withDefaults ps ((ps.filterMap (·.default)).map g) =
      ps.map fun p => { p with default := p.default.map g } := by
  refine withParts_map (fun p e he => ?_) (fun p he => ?_) ps
  · rw [he]
    rfl
  · obtain ⟨⟩ := p
    cases he
    rfl

theorem withValues_map (g : Expr → Expr) (fields : List ObjectField) :
    withValues fields ((fields.map (·.value)).map g) =
      fields.map fun field => { field with value := g field.value } := by
  have hvalues : fields.map (·.value) = fields.filterMap (some ·.value) :=
    (congrFun List.filterMap_eq_map' fields).symm
  rw [hvalues]
  refine withParts_map (fun field e he => ?_) (fun field he => ?_) fields
  · cases he
    rfl
  · cases he

theorem inits_withInits {vs : List Var} {es : List Expr}
    (h : es.length = (vs.filterMap (·.init)).length) : (withInits vs es).filterMap (·.init) = es :=
  filterMap_withParts Var.init (fun _ _ => rfl) h

theorem defaults_withDefaults {ps : List Param} {es : List Expr}
    (h : es.length = (ps.filterMap (·.default)).length) :
    (withDefaults ps es).filterMap (·.default) = es :=
  filterMap_withParts Param.default (fun _ _ => rfl) h

theorem values_withValues {fields : List ObjectField} {es : List Expr}
    (h : es.length = fields.length) : (withValues fields es).map (·.value) = es := by
  rw [← List.filterMap_eq_map']
  refine filterMap_withParts (fun field : ObjectField => some field.value) (fun _ _ => rfl) ?_
  rw [h, List.filterMap_eq_map', List.length_map]

theorem FunctionDef.children_withChildren {f : FunctionDef} {es : List Expr}
    (h : es.length = f.children.length) : (f.withChildren es).children = es := by
  unfold withChildren
  unfold children at h ⊢
  generalize hcount : (f.params.filterMap (·.default)).length = count at h ⊢
  rw [List.length_append, hcount] at h
  have hparams : (withDefaults f.params (es.take count)).filterMap (·.default) = es.take count :=
    defaults_withDefaults (by rw [hcount, List.length_take_of_le (by omega)])
  have hbody : (f.body.map fun body => (es.drop count).headD body).toList = es.drop count := by
    have hlength : (es.drop count).length = f.body.toList.length := by
      rw [List.length_drop]
      omega
    generalize es.drop count = rest at hlength ⊢
    cases hb : f.body with
    | none =>
      rw [hb] at hlength
      exact (List.length_eq_zero_iff.mp hlength).symm
    | some body =>
      rw [hb] at hlength
      obtain ⟨e, rfl⟩ := List.length_eq_one_iff.mp hlength
      rfl
  rw [hparams, hbody, List.take_append_drop]

/-- The direct sub-expressions that are put in are the ones that are there. -/
theorem ExprKind.children_withChildren {kind : ExprKind} {es : List Expr}
    (h : es.length = kind.children.length) : (kind.withChildren es).children = es := by
  cases kind with
  | const | brk | cont => exact (List.length_eq_zero_iff.mp h).symm
  | index | binary | forIn | loop =>
    obtain ⟨a, b, rfl⟩ := List.length_eq_two.mp h
    rfl
  | field | paren | unary | untyped | throw | cast | checkType =>
    obtain ⟨e, rfl⟩ := List.length_eq_one_iff.mp h
    rfl
  | ternary =>
    obtain ⟨a, b, c, rfl⟩ := List.length_eq_three.mp h
    rfl
  | array | block | new => rfl
  | object fields => exact values_withValues (by rw [h, children, List.length_map])
  | call callee args =>
    obtain ⟨x, xs, rfl⟩ := List.exists_cons_of_length_eq_add_one h
    rfl
  | vars vs => exact inits_withInits h
  | function kind f => exact FunctionDef.children_withChildren h
  | cond test yes no =>
    cases no with
    | none =>
      obtain ⟨a, b, rfl⟩ := List.length_eq_two.mp h
      rfl
    | some no =>
      obtain ⟨a, b, c, rfl⟩ := List.length_eq_three.mp h
      rfl
  | ret value =>
    cases value with
    | none => exact (List.length_eq_zero_iff.mp h).symm
    | some value =>
      obtain ⟨e, rfl⟩ := List.length_eq_one_iff.mp h
      rfl
  | annotated entry e =>
    rw [children, List.length_append, List.length_singleton] at h
    obtain ⟨args, x, rfl⟩ : ∃ args x, es = args ++ [x] :=
      ⟨_, _, (List.dropLast_append_getLast (List.ne_nil_of_length_eq_add_one h)).symm⟩
    have hargs : args.length = entry.args.length := by simpa using h
    rw [withChildren, children, List.take_left' hargs, List.getLastD_concat]

/-- The parts that a form was given can be read off it. -/
theorem ExprKind.withChildren_inj {kind : ExprKind} {es es' : List Expr}
    (hlength : es.length = kind.children.length) (hlength' : es'.length = kind.children.length)
    (h : kind.withChildren es = kind.withChildren es') : es = es' := by
  rw [← children_withChildren hlength, h, children_withChildren hlength']

theorem ExprKind.ident_or_ne (kind : ExprKind) :
    (∃ name, kind = .const (.ident name)) ∨ ∀ name, kind ≠ .const (.ident name) := by
  by_cases h : ∃ name, kind = .const (.ident name)
  · exact .inl h
  · exact .inr fun name heq => h ⟨name, heq⟩

theorem ExprKind.withChildren_ne_ident {kind : ExprKind}
    (h : ∀ name, kind ≠ .const (.ident name)) (es : List Expr) (name : String) :
    kind.withChildren es ≠ .const (.ident name) := by
  intro heq
  unfold withChildren at heq
  split at heq <;> first | exact h name heq | cases heq

theorem FunctionDef.withChildren_map (g : Expr → Expr) (f : FunctionDef) :
    f.withChildren (f.children.map g) = f.mapChildren g := by
  have hcount : ((f.params.filterMap (·.default)).map g).length =
      (f.params.filterMap (·.default)).length := List.length_map _
  rw [withChildren, mapChildren, children, List.map_append, List.take_left' hcount,
    List.drop_left' hcount, withDefaults_map]
  cases f.body <;> rfl

theorem ExprKind.withChildren_map (g : Expr → Expr) (kind : ExprKind) :
    kind.withChildren (kind.children.map g) = kind.mapChildren g := by
  cases kind with
  | object fields => exact congrArg ExprKind.object (withValues_map g fields)
  | vars vs => exact congrArg ExprKind.vars (withInits_map g vs)
  | function kind f => exact congrArg (ExprKind.function kind) (f.withChildren_map g)
  | cond test yes no => cases no <;> rfl
  | ret value => cases value <;> rfl
  | annotated entry e =>
    rw [withChildren, children, List.map_append, List.take_left' (List.length_map _)]
    simp [mapChildren]
  | _ => rfl

theorem FunctionDef.withChildren_withChildren {f : FunctionDef} {es es' : List Expr}
    (h : es.length = f.children.length) (h' : es'.length = f.children.length) :
    (f.withChildren es).withChildren es' = f.withChildren es' := by
  unfold children at h h'
  unfold withChildren
  dsimp only
  generalize hcount : (f.params.filterMap (·.default)).length = count at h h' ⊢
  rw [List.length_append, hcount] at h h'
  have hdefaults : (es.take count).length = (f.params.filterMap (·.default)).length := by
    rw [hcount, List.length_take_of_le (by omega)]
  have hdefaults' : (es'.take count).length = (f.params.filterMap (·.default)).length := by
    rw [hcount, List.length_take_of_le (by omega)]
  have hparams : withDefaults (withDefaults f.params (es.take count)) (es'.take count) =
      withDefaults f.params (es'.take count) := by
    refine withParts_withParts Param.default ?_ ?_ hdefaults hdefaults'
    · exact fun _ _ => rfl
    · exact fun _ _ _ => rfl
  rw [defaults_withDefaults hdefaults, hdefaults, hcount, hparams]
  cases hb : f.body with
  | none => rfl
  | some body =>
    rw [hb, Option.toList_some, List.length_singleton] at h'
    obtain ⟨e, he⟩ := List.length_eq_one_iff.mp
      (show (es'.drop count).length = 1 by rw [List.length_drop, h', Nat.add_sub_cancel_left])
    rw [he]
    rfl

theorem ExprKind.withChildren_withChildren {kind : ExprKind} {es es' : List Expr}
    (h : es.length = kind.children.length) (h' : es'.length = kind.children.length) :
    (kind.withChildren es).withChildren es' = kind.withChildren es' := by
  cases kind with
  | const | brk | cont => rfl
  | index | binary | forIn | loop =>
    obtain ⟨a, b, rfl⟩ := List.length_eq_two.mp h
    obtain ⟨a', b', rfl⟩ := List.length_eq_two.mp h'
    rfl
  | field | paren | unary | untyped | throw | cast | checkType =>
    obtain ⟨e, rfl⟩ := List.length_eq_one_iff.mp h
    obtain ⟨e', rfl⟩ := List.length_eq_one_iff.mp h'
    rfl
  | ternary =>
    obtain ⟨a, b, c, rfl⟩ := List.length_eq_three.mp h
    obtain ⟨a', b', c', rfl⟩ := List.length_eq_three.mp h'
    rfl
  | array | block | new => rfl
  | object fields =>
    rw [children, List.length_map] at h h'
    have hvalues : fields.length = (fields.filterMap (some ·.value)).length := by
      rw [List.filterMap_eq_map', List.length_map]
    refine congrArg ExprKind.object (withParts_withParts
      (fun field : ObjectField => some field.value) ?_ ?_ (h.trans hvalues) (h'.trans hvalues))
    · exact fun _ _ => rfl
    · exact fun _ _ _ => rfl
  | call callee args =>
    obtain ⟨x, xs, rfl⟩ := List.exists_cons_of_length_eq_add_one h
    obtain ⟨y, ys, rfl⟩ := List.exists_cons_of_length_eq_add_one h'
    rfl
  | vars vs =>
    refine congrArg ExprKind.vars (withParts_withParts Var.init ?_ ?_ h h')
    · exact fun _ _ => rfl
    · exact fun _ _ _ => rfl
  | function kind f => exact congrArg (ExprKind.function kind) (f.withChildren_withChildren h h')
  | cond test yes no =>
    cases no with
    | none =>
      obtain ⟨a, b, rfl⟩ := List.length_eq_two.mp h
      obtain ⟨a', b', rfl⟩ := List.length_eq_two.mp h'
      rfl
    | some no =>
      obtain ⟨a, b, c, rfl⟩ := List.length_eq_three.mp h
      obtain ⟨a', b', c', rfl⟩ := List.length_eq_three.mp h'
      rfl
  | ret value =>
    cases value with
    | none => rfl
    | some value =>
      obtain ⟨e, rfl⟩ := List.length_eq_one_iff.mp h
      obtain ⟨e', rfl⟩ := List.length_eq_one_iff.mp h'
      rfl
  | annotated entry e =>
    rw [children, List.length_append, List.length_singleton] at h h'
    obtain ⟨args, x, rfl⟩ : ∃ args x, es' = args ++ [x] :=
      ⟨_, _, (List.dropLast_append_getLast (List.ne_nil_of_length_eq_add_one h')).symm⟩
    have hargs : (es.take entry.args.length).length = entry.args.length :=
      List.length_take_of_le (by omega)
    simp only [withChildren, hargs, List.getLastD_concat]

theorem map_withInits (g : Expr → Expr) {vs : List Var} {es : List Expr}
    (h : es.length = (vs.filterMap (·.init)).length) :
    (withInits vs es).map (fun v => { v with init := v.init.map g }) = withInits vs (es.map g) := by
  refine map_withParts Var.init (fun v e => rfl) (fun v hv => ?_) h
  obtain ⟨⟩ := v
  cases hv
  rfl

theorem map_withDefaults (g : Expr → Expr) {ps : List Param} {es : List Expr}
    (h : es.length = (ps.filterMap (·.default)).length) :
    (withDefaults ps es).map (fun p => { p with default := p.default.map g }) =
      withDefaults ps (es.map g) := by
  refine map_withParts Param.default (fun p e => rfl) (fun p hp => ?_) h
  obtain ⟨⟩ := p
  cases hp
  rfl

theorem map_withValues (g : Expr → Expr) {fields : List ObjectField} {es : List Expr}
    (h : es.length = fields.length) :
    (withValues fields es).map (fun field => { field with value := g field.value }) =
      withValues fields (es.map g) := by
  refine map_withParts (fun field : ObjectField => some field.value) (fun field e => rfl)
    (fun field hf => nomatch hf) ?_
  rw [h, List.filterMap_eq_map', List.length_map]

theorem ExprKind.children_mapChildren (g : Expr → Expr) (kind : ExprKind) :
    (kind.mapChildren g).children = kind.children.map g := by
  rw [← withChildren_map, children_withChildren (List.length_map _)]

theorem FunctionDef.mapChildren_id (f : FunctionDef) : f.mapChildren (fun e => e) = f := by
  obtain ⟨params, ret, body, typeParams⟩ := f
  have hparams : params.map (fun p => { p with default := p.default.map fun e => e }) = params := by
    refine List.map_id'' (fun p => ?_) params
    obtain ⟨⟩ := p
    rw [Option.map_id']
  rw [mapChildren, hparams, Option.map_id']

theorem ExprKind.mapChildren_id (kind : ExprKind) : kind.mapChildren (fun e => e) = kind := by
  cases kind with
  | object fields =>
    refine congrArg ExprKind.object (List.map_id'' (fun field => ?_) fields)
    obtain ⟨⟩ := field
    rfl
  | vars vs =>
    refine congrArg ExprKind.vars (List.map_id'' (fun v => ?_) vs)
    obtain ⟨⟩ := v
    rw [Option.map_id']
  | function kind f => exact congrArg (ExprKind.function kind) f.mapChildren_id
  | annotated entry e =>
    obtain ⟨⟩ := entry
    simp only [mapChildren, List.map_id']
  | _ => simp [mapChildren]

theorem ExprKind.withChildren_children (kind : ExprKind) :
    kind.withChildren kind.children = kind := by
  rw [← List.map_id' kind.children, withChildren_map, mapChildren_id]

/-- Replacing every expression by itself changes nothing. -/
theorem Expr.mapUp_eq_self {f : Expr → Expr} (h : ∀ e, f e = e) (e : Expr) : e.mapUp f = e := by
  induction e using Expr.induction_children with
  | h e ih =>
    obtain ⟨kind, pos⟩ := e
    rw [mapUp_eq, h, ExprKind.mapChildren_congr ih, ExprKind.mapChildren_id]

theorem FunctionDef.mapChildren_withChildren (g : Expr → Expr) {f : FunctionDef} {es : List Expr}
    (h : es.length = f.children.length) :
    (f.withChildren es).mapChildren g = f.withChildren (es.map g) := by
  unfold children at h
  rw [List.length_append] at h
  have hbody : (f.body.map fun body =>
      (es.drop (f.params.filterMap (·.default)).length).headD body).map g =
        f.body.map fun body =>
          ((es.map g).drop (f.params.filterMap (·.default)).length).headD body := by
    cases hb : f.body with
    | none => rfl
    | some body =>
      rw [hb, Option.toList_some, List.length_singleton] at h
      obtain ⟨e, he⟩ := List.length_eq_one_iff.mp
        (show (es.drop (f.params.filterMap (·.default)).length).length = 1 by
          rw [List.length_drop, h, Nat.add_sub_cancel_left])
      rw [← List.map_drop, he]
      rfl
  unfold mapChildren withChildren
  dsimp only
  rw [hbody, map_withDefaults g (List.length_take_of_le (by omega)), List.map_take]

theorem ExprKind.mapChildren_withChildren (g : Expr → Expr) {kind : ExprKind} {es : List Expr}
    (h : es.length = kind.children.length) :
    (kind.withChildren es).mapChildren g = kind.withChildren (es.map g) := by
  cases kind with
  | const | brk | cont => rfl
  | index | binary | forIn | loop =>
    obtain ⟨a, b, rfl⟩ := List.length_eq_two.mp h
    rfl
  | field | paren | unary | untyped | throw | cast | checkType =>
    obtain ⟨e, rfl⟩ := List.length_eq_one_iff.mp h
    rfl
  | ternary =>
    obtain ⟨a, b, c, rfl⟩ := List.length_eq_three.mp h
    rfl
  | array | block | new => rfl
  | object fields =>
    exact congrArg ExprKind.object (map_withValues g (by rw [h, children, List.length_map]))
  | call callee args =>
    obtain ⟨x, xs, rfl⟩ := List.exists_cons_of_length_eq_add_one h
    rfl
  | vars vs => exact congrArg ExprKind.vars (map_withInits g h)
  | function kind f => exact congrArg (ExprKind.function kind) (f.mapChildren_withChildren g h)
  | cond test yes no =>
    cases no with
    | none =>
      obtain ⟨a, b, rfl⟩ := List.length_eq_two.mp h
      rfl
    | some no =>
      obtain ⟨a, b, c, rfl⟩ := List.length_eq_three.mp h
      rfl
  | ret value =>
    cases value with
    | none => rfl
    | some value =>
      obtain ⟨e, rfl⟩ := List.length_eq_one_iff.mp h
      rfl
  | annotated entry e =>
    rw [children, List.length_append, List.length_singleton] at h
    obtain ⟨args, x, rfl⟩ : ∃ args x, es = args ++ [x] :=
      ⟨_, _, (List.dropLast_append_getLast (List.ne_nil_of_length_eq_add_one h)).symm⟩
    have hargs : args.length = entry.args.length := by simpa using h
    simp [withChildren, mapChildren, hargs]

/-- What does not depend on the direct sub-expressions stays when others are put in. -/
theorem ExprKind.of_withChildren {α : Type} {k : ExprKind → α}
    (hk : ∀ g kind, k (mapChildren g kind) = k kind) {kind : ExprKind} {es : List Expr}
    (h : es.length = kind.children.length) : k (kind.withChildren es) = k kind := by
  let same : Expr → Expr := fun _ => .null .null
  calc k (kind.withChildren es)
      = k ((kind.withChildren es).mapChildren same) := (hk same _).symm
    _ = k (kind.withChildren (kind.children.map same)) := by
        rw [mapChildren_withChildren same h, List.map_const', List.map_const', h]
    _ = k kind := by rw [withChildren_map, hk]

/-! ## Visits with a state -/

/-- The action goes along the expressions `es`, each of which changes the state, and answers `a`. -/
def Goes {σ α : Type} (change : σ → Expr → σ) (action : StateM σ α) (es : List Expr) (a : α) :
    Prop :=
  ∀ st, action.run st = (a, es.foldl change st)

namespace Goes

variable {σ α β : Type} {change : σ → Expr → σ}

theorem pure (a : α) : Goes change (Pure.pure a) [] a := fun _ => rfl

theorem bind {action : StateM σ α} {k : α → StateM σ β} {es es' : List Expr} {a : α} {b : β}
    (h : Goes change action es a) (hk : Goes change (k a) es' b) :
    Goes change (action >>= k) (es ++ es') b := by
  intro st
  rw [StateT.run_bind, h st, List.foldl_append, ← hk]
  rfl

theorem last {action : StateM σ α} {k : α → β} {es : List Expr} {a : α}
    (h : Goes change action es a) :
    Goes change (do return k (← action)) es (k a) := by
  have hlast := h.bind (.pure (k a)) (k := fun a => Pure.pure (k a))
  rwa [List.append_nil] at hlast

section
variable {replace : Expr → Option (StateM σ Expr)} {visit : Expr → StateM σ Expr} {f : Expr → Expr}

theorem exprs {es : List Expr}
    (h : ∀ e ∈ es, Goes change (e.transform replace visit) [e] (f e)) :
    Goes change (transformExprs replace visit es) es (es.map f) := by
  induction es with
  | nil => exact .pure []
  | cons e es ih =>
    obtain ⟨he, hes⟩ := List.forall_mem_cons.mp h
    exact he.bind (ih hes).last

theorem option {e? : Option Expr}
    (h : ∀ e ∈ e?.toList, Goes change (e.transform replace visit) [e] (f e)) :
    Goes change (transformOption replace visit e?) e?.toList (e?.map f) := by
  cases e? with
  | none => exact .pure none
  | some e => exact (h e List.mem_cons_self).last

theorem fields {fields : List ObjectField}
    (h : ∀ e ∈ fields.map (·.value), Goes change (e.transform replace visit) [e] (f e)) :
    Goes change (transformFields replace visit fields) (fields.map (·.value))
      (fields.map fun field => { field with value := f field.value }) := by
  induction fields with
  | nil => exact .pure []
  | cons field fields ih =>
    obtain ⟨name, value, quoted⟩ := field
    obtain ⟨he, hfields⟩ := List.forall_mem_cons.mp h
    exact he.bind (ih hfields).last

theorem vars {vs : List Var}
    (h : ∀ e ∈ vs.filterMap (·.init), Goes change (e.transform replace visit) [e] (f e)) :
    Goes change (transformVars replace visit vs) (vs.filterMap (·.init))
      (vs.map fun v => { v with init := v.init.map f }) := by
  induction vs with
  | nil => exact .pure []
  | cons v vs ih =>
    obtain ⟨name, type, init, isFinal, isStatic, annotations⟩ := v
    cases init with
    | none => exact (Goes.pure none).bind (ih h).last
    | some e =>
      obtain ⟨he, hvs⟩ := List.forall_mem_cons.mp h
      exact he.last.bind (ih hvs).last

theorem params {ps : List Param}
    (h : ∀ e ∈ ps.filterMap (·.default), Goes change (e.transform replace visit) [e] (f e)) :
    Goes change (transformParams replace visit ps) (ps.filterMap (·.default))
      (ps.map fun p => { p with default := p.default.map f }) := by
  induction ps with
  | nil => exact .pure []
  | cons p ps ih =>
    obtain ⟨name, optional, type, default, annotations⟩ := p
    cases default with
    | none => exact (Goes.pure none).bind (ih h).last
    | some e =>
      obtain ⟨he, hps⟩ := List.forall_mem_cons.mp h
      exact he.last.bind (ih hps).last

/-- The transformation of a form goes along its direct parts. -/
theorem kind {kind : ExprKind}
    (h : ∀ e ∈ kind.children, Goes change (e.transform replace visit) [e] (f e)) :
    Goes change (kind.transform replace visit) kind.children (kind.mapChildren f) := by
  cases kind with
  | const | brk | cont => exact .pure _
  | index a b | binary _ a b | forIn a b | loop a b =>
    exact (h a (by simp [ExprKind.children])).bind
      (h b (by simp [ExprKind.children])).last
  | field e | paren e | unary _ _ e | untyped e | throw e | cast e | checkType e =>
    exact (h e List.mem_cons_self).last
  | object fs => exact (Goes.fields h).last
  | array items | block items | new _ items => exact (Goes.exprs h).last
  | call callee args =>
    obtain ⟨hcallee, hargs⟩ := List.forall_mem_cons.mp h
    exact hcallee.bind (Goes.exprs hargs).last
  | vars vs => exact (Goes.vars h).last
  | function kind func =>
    obtain ⟨params, ret, body, typeParams⟩ := func
    obtain ⟨hparams, hbody⟩ := List.forall_mem_append.mp h
    exact ((Goes.params hparams).bind (Goes.option hbody).last).last
  | cond test yes no =>
    simp only [ExprKind.children, List.forall_mem_cons] at h
    obtain ⟨htest, hyes, hno⟩ := h
    exact htest.bind (hyes.bind (Goes.option hno).last)
  | ret value => exact (Goes.option h).last
  | ternary test yes no =>
    simp only [ExprKind.children, List.forall_mem_cons] at h
    obtain ⟨htest, hyes, hno, -⟩ := h
    exact htest.bind (hyes.bind hno.last)
  | annotated entry e =>
    obtain ⟨name, args, pos⟩ := entry
    obtain ⟨hargs, he⟩ := List.forall_mem_append.mp h
    exact (Goes.exprs hargs).last.bind (he e List.mem_cons_self).last

/-- An expression that is not replaced is visited after its direct parts. -/
theorem expr {e : Expr} (hreplace : replace e = none)
    (h : ∀ child ∈ e.children, Goes change (child.transform replace visit) [child] (f child))
    (st : σ) :
    (e.transform replace visit).run st =
      (visit { e with kind := e.kind.mapChildren f }).run (e.children.foldl change st) := by
  obtain ⟨k, pos⟩ := e
  rw [Expr.transform, hreplace]
  simp only [StateT.run_bind, Goes.kind h st]
  rfl

end

end Goes

end HaxeMacro
