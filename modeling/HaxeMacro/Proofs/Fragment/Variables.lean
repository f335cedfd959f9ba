import HaxeMacro.Proofs.Fragment.Children

/-! # Declared variables

The variables that an expression declares, and where in it they are declared: outside its function
literals, and outside the initial values of other variables too.
-/

namespace HaxeMacro

namespace Expr

def vars : Expr → List Var
  | ⟨.vars vs, _⟩ => vs
  | _ => []

/-- The variables declared in an expression outside its function literals. -/
def localVars (e : Expr) : List Var := e.nodesOutsideFunctions.flatMap vars

/-- Those of them that are declared outside the initial values of others. -/
def outerVars (e : Expr) : List Var :=
  (e.nodesWhere fun node => !node.isFunction && node.vars.isEmpty).flatMap vars

def localStatics (e : Expr) : List Var := e.localVars.filter (·.isStatic)

def outerStatics (e : Expr) : List Var := e.outerVars.filter (·.isStatic)

/-- The static variables declared in the initial values of others. -/
def initStatics (e : Expr) : List Var := (e.outerVars.filterMap (·.init)).flatMap localStatics

theorem nodesWhere_eq (enter : Expr → Bool) (e : Expr) :
    e.nodesWhere enter = e :: if enter e then e.children.flatMap (·.nodesWhere enter) else [] := by
  obtain ⟨kind, pos⟩ := e
  rw [nodesWhere, ExprKind.nodesWhere_eq]
  rfl

theorem localVars_eq (e : Expr) :
    e.localVars = e.vars ++ if e.isFunction then [] else e.children.flatMap localVars := by
  rw [localVars, nodesOutsideFunctions, nodesWhere_eq, List.flatMap_cons]
  cases e.isFunction with
  | true => rfl
  | false => exact congrArg (e.vars ++ ·) List.flatMap_assoc

/-- Either an expression declares variables, or what stands in it declares them. -/
theorem outerVars_eq (e : Expr) :
    e.outerVars = e.vars ++
      if e.isFunction || !e.vars.isEmpty then [] else e.children.flatMap outerVars := by
  rw [outerVars, nodesWhere_eq, List.flatMap_cons]
  cases e.isFunction with
  | true => rfl
  | false =>
    cases e.vars.isEmpty with
    | true => exact congrArg (e.vars ++ ·) List.flatMap_assoc
    | false => rfl

theorem vars_of_isFunction {e : Expr} (h : e.isFunction = true) : e.vars = [] := by
  obtain ⟨kind, pos⟩ := e
  cases kind <;> first | rfl | cases h

theorem localVars_of_isFunction {e : Expr} (h : e.isFunction = true) : e.localVars = [] := by
  rw [localVars_eq, vars_of_isFunction h, h]
  rfl

theorem outerVars_of_isFunction {e : Expr} (h : e.isFunction = true) : e.outerVars = [] := by
  rw [outerVars_eq, vars_of_isFunction h, h]
  rfl

theorem localVars_vars (vs : List Var) (pos : Position) :
    (⟨.vars vs, pos⟩ : Expr).localVars = vs ++ (vs.filterMap (·.init)).flatMap localVars :=
  localVars_eq _

theorem outerVars_vars (vs : List Var) (pos : Position) :
    (⟨.vars vs, pos⟩ : Expr).outerVars = vs := by
  rw [outerVars_eq]
  cases vs <;> simp [vars, children, ExprKind.children, isFunction]

theorem localVars_parts {e : Expr} (hfunction : e.isFunction = false) (hvars : e.vars = []) :
    e.localVars = e.children.flatMap localVars := by
  rw [localVars_eq, hvars, hfunction]
  rfl

theorem outerVars_parts {e : Expr} (hfunction : e.isFunction = false) (hvars : e.vars = []) :
    e.outerVars = e.children.flatMap outerVars := by
  rw [outerVars_eq, hvars, hfunction]
  rfl

theorem isFunction_mapChildren (g : Expr → Expr) (e : Expr) :
    ({ e with kind := e.kind.mapChildren g } : Expr).isFunction = e.isFunction := by
  obtain ⟨kind, pos⟩ := e
  cases kind <;> rfl

theorem vars_mapChildren (g : Expr → Expr) (e : Expr) :
    ({ e with kind := e.kind.mapChildren g } : Expr).vars =
      e.vars.map fun v => { v with init := v.init.map g } := by
  obtain ⟨kind, pos⟩ := e
  cases kind <;> rfl

/-! ### Renamed identifiers -/

variable (f : String → String)

theorem renameIdents_eq (kind : ExprKind) (pos : Position) :
    (⟨kind, pos⟩ : Expr).renameIdents f =
      match kind with
      | .const (.ident name) => ident (f name) pos
      | kind => ⟨kind.mapChildren (·.renameIdents f), pos⟩ := by
  rw [renameIdents, mapConstants, mapUp_eq]
  cases kind with
  | const c => cases c <;> rfl
  | _ => rfl

theorem renameIdents_of_ne {kind : ExprKind} {pos : Position}
    (h : ∀ name, kind ≠ .const (.ident name)) :
    (⟨kind, pos⟩ : Expr).renameIdents f = ⟨kind.mapChildren (·.renameIdents f), pos⟩ := by
  rw [renameIdents_eq]
  split
  · exact absurd rfl (h _)
  · rfl

theorem renameIdents_id (e : Expr) : e.renameIdents id = e := by
  refine mapUp_eq_self (fun node => ?_) e
  obtain ⟨kind, pos⟩ := node
  cases kind with
  | const c => cases c <;> rfl
  | _ => rfl

theorem localVars_renameIdents (e : Expr) :
    (e.renameIdents f).localVars =
      e.localVars.map fun v => { v with init := v.init.map (·.renameIdents f) } := by
  induction e using Expr.induction_children with
  | h e ih =>
    obtain ⟨kind, pos⟩ := e
    have hchildren : (kind.mapChildren (·.renameIdents f)).children.flatMap localVars =
        (kind.children.flatMap localVars).map fun v =>
          { v with init := v.init.map (·.renameIdents f) } := by
      rw [ExprKind.children_mapChildren, List.flatMap_map, List.map_flatMap]
      exact List.flatMap_congr ih
    rw [renameIdents_eq, localVars_eq ⟨kind, pos⟩, List.map_append]
    cases kind with
    | const c => cases c <;> rfl
    | function => rfl
    | _ =>
      rw [localVars_eq]
      exact congrArg _ hchildren

end Expr

end HaxeMacro
