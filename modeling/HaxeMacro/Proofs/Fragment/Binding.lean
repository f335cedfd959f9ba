import HaxeMacro.Proofs.Fragment.Variables

/-! # Binders of names

What a name means inside a body. A variable is known from its declaration on, up to the end of the
block, of the function literal, or of the head or the body of a loop over a collection around it. A
parameter is known in the body of its function literal, a loop variable in the body of its loop, and
the name of a function literal inside it and after it.
-/

namespace HaxeMacro

/-- What stands around an expression. -/
inductive Frame where
  | function
  | init (isStatic : Bool)
  deriving DecidableEq, Repr

/-- What binds a name. -/
inductive Binder where
  | local (isStatic : Bool) (frames : List Frame)
  | param
  | loop
  | function
  deriving DecidableEq, Repr

/-- The names that are known, the innermost binder first. -/
abbrev Bindings := Entries String Binder

/-! ## What an expression makes known -/

mutual

def Expr.after (frames : List Frame) (scope : Bindings) : Expr → Bindings
  | ⟨kind, _⟩ => kind.after frames scope

def ExprKind.after (frames : List Frame) (scope : Bindings) : ExprKind → Bindings
  | .const _ | .brk | .cont | .block _ | .forIn _ _ => scope
  | .index a b | .binary _ a b | .loop a b true => b.after frames (a.after frames scope)
  | .loop test body false => test.after frames (body.after frames scope)
  | .field e _ | .paren e | .unary _ _ e | .untyped e | .throw e | .cast e _ | .checkType e _ =>
    e.after frames scope
  | .object fields => afterFields frames scope fields
  | .array items => afterExprs frames scope items
  | .call callee args => afterExprs frames (callee.after frames scope) args
  | .new _ args => afterExprs frames scope args
  | .vars vs => afterVars frames scope vs
  | .function (.named name) _ => (name, .function) :: scope
  | .function _ _ => scope
  | .cond test yes no => afterOption frames (yes.after frames (test.after frames scope)) no
  | .ret value => afterOption frames scope value
  | .ternary test yes no => no.after frames (yes.after frames (test.after frames scope))
  | .annotated entry e => e.after frames (entry.after frames scope)

def afterExprs (frames : List Frame) (scope : Bindings) : List Expr → Bindings
  | [] => scope
  | e :: es => afterExprs frames (e.after frames scope) es

def afterOption (frames : List Frame) (scope : Bindings) : Option Expr → Bindings
  | none => scope
  | some e => e.after frames scope

def afterFields (frames : List Frame) (scope : Bindings) : List ObjectField → Bindings
  | [] => scope
  | ⟨_, value, _⟩ :: fields => afterFields frames (value.after frames scope) fields

/-- A variable is known after its initial value. -/
def afterVars (frames : List Frame) (scope : Bindings) : List Var → Bindings
  | [] => scope
  | ⟨name, _, init, _, isStatic, _⟩ :: vs =>
    let before := afterOption (.init isStatic :: frames) scope init
    afterVars frames ((name, .local isStatic frames) :: before) vs

def Metadata.after (frames : List Frame) (scope : Bindings) : Metadata → Bindings
  | ⟨_, args, _⟩ => afterExprs frames scope args

end

/-! ## Parts and their places -/

structure Site where
  scope : Bindings
  frames : List Frame
  isHead : Bool
  deriving DecidableEq, Repr

namespace Site

def top : Site := ⟨[], [], false⟩

def binder? (s : Site) (name : String) : Option Binder := Entries.get? s.scope name

def withScope (s : Site) (scope : Bindings) : Site := ⟨scope, s.frames, false⟩

def within (s : Site) (frame : Frame) : Site := ⟨s.scope, frame :: s.frames, false⟩

def along (s : Site) : List Expr → List (Site × Expr)
  | [] => []
  | e :: es => (s, e) :: (s.withScope (e.after s.frames s.scope)).along es

def inits (s : Site) : List Var → List (Site × Expr)
  | [] => []
  | v :: vs =>
    let inner := s.within (.init v.isStatic)
    let before := afterOption inner.frames s.scope v.init
    v.init.toList.map (inner, ·) ++
      (s.withScope ((v.name, .local v.isStatic s.frames) :: before)).inits vs

def inFunction (s : Site) : FunctionKind → Site
  | .named name => (s.withScope ((name, .function) :: s.scope)).within .function
  | _ => s.within .function

end Site

/-- The default values and the body of a function. The parameters are known in the body alone. -/
def FunctionDef.parts (s : Site) (f : FunctionDef) : List (Site × Expr) :=
  let params := f.params.map fun p => (p.name, Binder.param)
  (f.params.filterMap (·.default)).map (s, ·) ++
    f.body.toList.map (s.withScope (params ++ s.scope), ·)

def loopNames : Expr → List String
  | ⟨.binary .isIn ⟨.binary .arrow key value, _⟩ _, _⟩ => key.ident?.toList ++ value.ident?.toList
  | ⟨.binary .isIn left _, _⟩ => left.ident?.toList
  | _ => []

/-- The names that are known where the variables of a loop are. -/
def loopScope (head : Expr) (scope : Bindings) : Bindings :=
  (loopNames head).map (·, .loop) ++ scope

def ExprKind.parts (s : Site) : ExprKind → List (Site × Expr)
  | .loop test body false => [(s.withScope (body.after s.frames s.scope), test), (s, body)]
  | .vars vs => s.inits vs
  | .function kind f => f.parts (s.inFunction kind)
  | .forIn head body =>
    [({ s with isHead := true }, head), (s.withScope (loopScope head s.scope), body)]
  | kind => s.along kind.children

/-- The direct sub-expressions, each with its place. In the head of a loop the variables of the loop
are known to the left of `in`. -/
def Expr.parts (s : Site) (e : Expr) : List (Site × Expr) :=
  match s.isHead, e.kind with
  | true, .binary .isIn left items =>
    [(s.withScope (loopScope e s.scope), left), (s.withScope s.scope, items)]
  | _, kind => kind.parts (s.withScope s.scope)

/-- An expression stands at a place in the body `root`. -/
inductive Place (root : Expr) : Site → Expr → Prop
  | root : Place root .top root
  | part {s s' : Site} {e e' : Expr} :
    Place root s e → (s', e') ∈ e.parts s → Place root s' e'

theorem Place.mem_of_closed {root : Expr} {places : List (Site × Expr)}
    (hroot : (.top, root) ∈ places) (hparts : ∀ p ∈ places, ∀ q ∈ p.2.parts p.1, q ∈ places)
    {s : Site} {e : Expr} (hplace : Place root s e) : (s, e) ∈ places := by
  induction hplace with
  | root => exact hroot
  | part _ hpart ih => exact hparts _ ih _ hpart

theorem Site.map_snd_along (s : Site) (es : List Expr) : (s.along es).map (·.2) = es := by
  induction es generalizing s with
  | nil => rfl
  | cons e es ih => rw [along, List.map_cons, ih]

theorem Site.map_snd_inits (s : Site) (vs : List Var) :
    (s.inits vs).map (·.2) = vs.filterMap (·.init) := by
  induction vs generalizing s with
  | nil => rfl
  | cons v vs ih =>
    rw [inits, List.map_append, ih]
    cases hinit : v.init <;> simp [hinit]

theorem ExprKind.map_snd_parts (s : Site) (kind : ExprKind) :
    (kind.parts s).map (·.2) = kind.children := by
  unfold ExprKind.parts
  split
  · rfl
  · exact s.map_snd_inits _
  · rename_i f
    simp [FunctionDef.parts, children, FunctionDef.children, Function.comp_def]
  · rfl
  · exact s.map_snd_along _

theorem Expr.map_snd_parts (s : Site) (e : Expr) : (e.parts s).map (·.2) = e.children := by
  unfold Expr.parts
  split
  · rename_i hkind
    rw [children, hkind]
    rfl
  · exact ExprKind.map_snd_parts _ _

theorem Expr.mem_children_of_mem_parts {s : Site} {e : Expr} {p : Site × Expr}
    (h : p ∈ e.parts s) : p.2 ∈ e.children := by
  rw [← e.map_snd_parts s]
  exact List.mem_map_of_mem h

theorem Expr.parts_cases (s : Site) (e : Expr) :
    e.parts s = e.kind.parts (s.withScope s.scope) ∨
      s.isHead = true ∧ ∃ left items, e.kind = .binary .isIn left items ∧
        e.parts s = [(s.withScope (loopScope e s.scope), left), (s.withScope s.scope, items)] := by
  unfold Expr.parts
  split
  · rename_i left items hhead hkind
    exact .inr ⟨hhead, left, items, hkind, rfl⟩
  · exact .inl rfl

/-! ## What is known -/

def Declared (root : Expr) (entry : String × Binder) : Prop :=
  ∀ isStatic frames, entry.2 = .local isStatic frames →
    ∃ s e v, Place root s e ∧ s.frames = frames ∧ v ∈ e.vars ∧ v.name = entry.1 ∧
      v.isStatic = isStatic

section
variable (frames : List Frame) (scope : Bindings)

theorem afterOption_eq_afterExprs (e? : Option Expr) :
    afterOption frames scope e? = afterExprs frames scope e?.toList := by
  cases e? <;> rfl

theorem afterFields_eq_afterExprs (fields : List ObjectField) :
    afterFields frames scope fields = afterExprs frames scope (fields.map (·.value)) := by
  induction fields generalizing scope with
  | nil => rfl
  | cons field fields ih =>
    obtain ⟨name, value, quoted⟩ := field
    exact ih _

theorem afterExprs_append (es es' : List Expr) :
    afterExprs frames scope (es ++ es') = afterExprs frames (afterExprs frames scope es) es' := by
  induction es generalizing scope with
  | nil => rfl
  | cons e es ih => exact ih _

end

section
variable {Q : String × Binder → Prop}

/-- What holds of all known names where the expression stands holds of all after it. The head of a
loop is left out: nothing is known after it. -/
def KnownAfter (Q : String × Binder → Prop) (p : Site × Expr) : Prop :=
  p.1.isHead = false → (∀ b ∈ p.1.scope, Q b) → ∀ b ∈ p.2.after p.1.frames p.1.scope, Q b

theorem forall_along {s : Site} {es : List Expr} (hhead : s.isHead = false)
    (h : ∀ p ∈ s.along es, KnownAfter Q p) (hs : ∀ b ∈ s.scope, Q b) :
    (∀ b ∈ afterExprs s.frames s.scope es, Q b) ∧
      ∀ p ∈ s.along es, ∀ b ∈ p.1.scope, Q b := by
  induction es generalizing s with
  | nil => exact ⟨hs, fun _ hp => nomatch hp⟩
  | cons e es ih =>
    obtain ⟨he, hes⟩ := List.forall_mem_cons.mp h
    obtain ⟨hafter, hparts⟩ := ih rfl hes (he hhead hs)
    exact ⟨hafter, List.forall_mem_cons.mpr ⟨hs, hparts⟩⟩

theorem forall_inits {s : Site} {vs : List Var} (h : ∀ p ∈ s.inits vs, KnownAfter Q p)
    (hvars : ∀ v ∈ vs, Q (v.name, .local v.isStatic s.frames)) (hs : ∀ b ∈ s.scope, Q b) :
    (∀ b ∈ afterVars s.frames s.scope vs, Q b) ∧
      ∀ p ∈ s.inits vs, ∀ b ∈ p.1.scope, Q b := by
  induction vs generalizing s with
  | nil => exact ⟨hs, fun _ hp => nomatch hp⟩
  | cons v vs ih =>
    obtain ⟨hv, hvs⟩ := List.forall_mem_cons.mp hvars
    obtain ⟨name, type, init, isFinal, isStatic, annotations⟩ := v
    obtain ⟨hinit, hparts⟩ := List.forall_mem_append.mp h
    have hbefore : ∀ b ∈ afterOption (.init isStatic :: s.frames) s.scope init, Q b := by
      cases init with
      | none => exact hs
      | some e => exact hinit _ List.mem_cons_self rfl hs
    obtain ⟨hafter, hrest⟩ := ih hparts hvs (List.forall_mem_cons.mpr ⟨hv, hbefore⟩)
    refine ⟨hafter, List.forall_mem_append.mpr ⟨fun p hp => ?_, hrest⟩⟩
    obtain ⟨e, -, rfl⟩ := List.mem_map.mp hp
    exact hs

variable (hother : ∀ name binder, (∀ isStatic frames, binder ≠ .local isStatic frames) →
  Q (name, binder))
include hother

theorem forall_loopScope (head : Expr) {scope : Bindings} (h : ∀ b ∈ scope, Q b) :
    ∀ b ∈ loopScope head scope, Q b := by
  refine List.forall_mem_append.mpr ⟨fun b hb => ?_, h⟩
  obtain ⟨name, -, rfl⟩ := List.mem_map.mp hb
  exact hother name .loop (by simp)

theorem ExprKind.forall_parts {s : Site} {kind : ExprKind} {pos : Position}
    (hhead : s.isHead = false) (h : ∀ p ∈ kind.parts s, KnownAfter Q p)
    (hvars : ∀ v ∈ Expr.vars ⟨kind, pos⟩, Q (v.name, .local v.isStatic s.frames))
    (hs : ∀ b ∈ s.scope, Q b) :
    (∀ b ∈ kind.after s.frames s.scope, Q b) ∧ ∀ p ∈ kind.parts s, ∀ b ∈ p.1.scope, Q b := by
  cases kind with
  | block items => exact ⟨hs, (forall_along hhead h hs).2⟩
  | loop test body first =>
    cases first with
    | true => exact forall_along hhead h hs
    | false =>
      -- The body comes first in the text, and what it declares is known in the test.
      obtain ⟨htest, hbody⟩ := List.forall_mem_cons.mp h
      have hknown : ∀ b ∈ body.after s.frames s.scope, Q b := hbody _ List.mem_cons_self hhead hs
      refine ⟨htest rfl hknown, List.forall_mem_cons.mpr ⟨hknown, ?_⟩⟩
      exact List.forall_mem_singleton.mpr hs
  | vars vs => exact forall_inits h hvars hs
  | function kind f =>
    -- The name of the literal is known everywhere in it, its parameters in the body alone.
    have hinside : ∀ b ∈ (s.inFunction kind).scope, Q b := by
      cases kind with
      | named name => exact List.forall_mem_cons.mpr ⟨hother name .function (by simp), hs⟩
      | _ => exact hs
    refine ⟨by cases kind <;> exact hinside, List.forall_mem_append.mpr ⟨?_, ?_⟩⟩
    · rintro p hp
      obtain ⟨e, -, rfl⟩ := List.mem_map.mp hp
      exact hinside
    · rintro p hp
      obtain ⟨e, -, rfl⟩ := List.mem_map.mp hp
      refine List.forall_mem_append.mpr ⟨fun b hb => ?_, hinside⟩
      obtain ⟨param, -, rfl⟩ := List.mem_map.mp hb
      exact hother param.name .param (by simp)
  | forIn head body =>
    refine ⟨hs, List.forall_mem_cons.mpr ⟨hs, List.forall_mem_singleton.mpr ?_⟩⟩
    exact forall_loopScope hother head hs
  | object fields =>
    rw [ExprKind.after, afterFields_eq_afterExprs]
    exact forall_along hhead h hs
  | cond test yes no =>
    rw [ExprKind.after, afterOption_eq_afterExprs]
    exact forall_along hhead h hs
  | ret value =>
    rw [ExprKind.after, afterOption_eq_afterExprs]
    exact forall_along hhead h hs
  | annotated entry e =>
    obtain ⟨name, args, pos⟩ := entry
    have hafter : (ExprKind.annotated ⟨name, args, pos⟩ e).after s.frames s.scope =
        afterExprs s.frames s.scope (args ++ [e]) := (afterExprs_append _ _ args [e]).symm
    rw [hafter]
    exact forall_along hhead h hs
  | _ => exact forall_along hhead h hs

variable {root : Expr}
  (hvars : ∀ s e, Place root s e → ∀ v ∈ e.vars, Q (v.name, .local v.isStatic s.frames))
include hvars

theorem Place.knownAfter {s : Site} {e : Expr} (hplace : Place root s e) : KnownAfter Q (s, e) := by
  induction e using Expr.induction_children generalizing s with
  | h e ih =>
    intro hhead hs
    obtain hparts | ⟨hloop, -⟩ := e.parts_cases s
    swap
    · exact absurd hloop (Bool.eq_false_iff.mp hhead)
    have hafter : ∀ p ∈ e.kind.parts (s.withScope s.scope), KnownAfter Q p := fun p hp =>
      ih p.2 (Expr.mem_children_of_mem_parts (hparts ▸ hp)) (hplace.part (hparts ▸ hp))
    obtain ⟨kind, pos⟩ := e
    exact (ExprKind.forall_parts hother rfl hafter (hvars s _ hplace) hs).1

/-- What holds of all binders in a body holds of the names that are known anywhere in it. -/
theorem Place.forall_scope {s : Site} {e : Expr} (hplace : Place root s e) :
    ∀ b ∈ s.scope, Q b := by
  induction hplace with
  | root => exact fun b hb => nomatch hb
  | @part s s' e e' hplace hpart hs =>
    obtain hparts | ⟨-, left, items, -, hparts⟩ := e.parts_cases s
    · have hafter : ∀ p ∈ e.kind.parts (s.withScope s.scope), KnownAfter Q p := fun p hp =>
        Place.knownAfter hother hvars (hplace.part (hparts ▸ hp))
      obtain ⟨kind, pos⟩ := e
      exact (ExprKind.forall_parts hother rfl hafter (hvars s _ hplace) hs).2 _ (hparts ▸ hpart)
    · rw [hparts] at hpart
      rcases List.mem_cons.mp hpart with heq | hpart
      · cases heq
        exact forall_loopScope hother e hs
      · cases List.mem_singleton.mp hpart
        exact hs

end

theorem Place.declared_of_binder? {root : Expr} {s : Site} {e : Expr} (hplace : Place root s e)
    {name : String} {isStatic : Bool} {frames : List Frame}
    (h : s.binder? name = some (.local isStatic frames)) :
    ∃ s' e' v, Place root s' e' ∧ s'.frames = frames ∧ v ∈ e'.vars ∧ v.name = name ∧
      v.isStatic = isStatic := by
  refine hplace.forall_scope (Q := Declared root)
    (fun name binder hbinder isStatic frames heq => ?_)
    (fun s e hplace v hv isStatic frames heq => ?_) _ (Entries.mem_of_get? h) isStatic frames rfl
  · exact absurd heq (hbinder isStatic frames)
  · cases heq
    exact ⟨s, e, v, hplace, rfl, hv, rfl, rfl⟩

/-! ## What stands around a part -/

theorem Site.frames_along {s : Site} {es : List Expr} :
    ∀ p ∈ s.along es, p.1.frames = s.frames := by
  induction es generalizing s with
  | nil => exact fun p hp => nomatch hp
  | cons e es ih => exact List.forall_mem_cons.mpr ⟨rfl, ih⟩

theorem Site.frames_inits {s : Site} {vs : List Var} : ∀ p ∈ s.inits vs,
    ∃ v ∈ vs, v.init = some p.2 ∧ p.1.frames = .init v.isStatic :: s.frames := by
  induction vs generalizing s with
  | nil => exact fun p hp => nomatch hp
  | cons v vs ih =>
    refine List.forall_mem_append.mpr ⟨fun p hp => ?_, fun p hp => ?_⟩
    · obtain ⟨e, he, rfl⟩ := List.mem_map.mp hp
      exact ⟨v, List.mem_cons_self, Option.mem_toList.mp he, rfl⟩
    · obtain ⟨w, hw, hinit, hframes⟩ := ih p hp
      exact ⟨w, List.mem_cons_of_mem _ hw, hinit, hframes⟩

theorem Expr.frames_of_isFunction {s : Site} {e : Expr} (h : e.isFunction = true) :
    ∀ p ∈ e.parts s, p.1.frames = .function :: s.frames := by
  obtain ⟨kind, pos⟩ := e
  cases kind <;> cases h
  rename_i kind f
  have hparts : (⟨.function kind f, pos⟩ : Expr).parts s =
      f.parts ((s.withScope s.scope).inFunction kind) := by
    unfold Expr.parts
    cases s.isHead <;> rfl
  have hframes : ((s.withScope s.scope).inFunction kind).frames = .function :: s.frames := by
    cases kind <;> rfl
  rw [hparts, ← hframes]
  refine List.forall_mem_append.mpr ⟨fun p hp => ?_, fun p hp => ?_⟩ <;>
  · obtain ⟨e, -, rfl⟩ := List.mem_map.mp hp
    rfl

theorem Expr.parts_vars (s : Site) (vs : List Var) (pos : Position) :
    (⟨.vars vs, pos⟩ : Expr).parts s = (s.withScope s.scope).inits vs := by
  unfold Expr.parts
  cases s.isHead <;> rfl

theorem Expr.frames_of_other {s : Site} {e : Expr} (hfunction : e.isFunction = false)
    (hvars : e.vars = []) : ∀ p ∈ e.parts s, p.1.frames = s.frames := by
  obtain hparts | ⟨-, left, items, -, hparts⟩ := e.parts_cases s
  · rw [hparts]
    obtain ⟨kind, pos⟩ := e
    cases kind with
    | function => cases hfunction
    | vars vs =>
      cases (show vs = [] from hvars)
      exact fun p hp => nomatch hp
    | forIn => exact List.forall_mem_cons.mpr ⟨rfl, List.forall_mem_singleton.mpr rfl⟩
    | loop test body first =>
      cases first with
      | true => exact Site.frames_along
      | false => exact List.forall_mem_cons.mpr ⟨rfl, List.forall_mem_singleton.mpr rfl⟩
    | _ => exact Site.frames_along
  · rw [hparts]
    exact List.forall_mem_cons.mpr ⟨rfl, List.forall_mem_singleton.mpr rfl⟩

theorem Expr.frames_suffix {s : Site} {e : Expr} : ∀ p ∈ e.parts s, s.frames <:+ p.1.frames := by
  intro p hp
  cases hfunction : e.isFunction with
  | true => exact e.frames_of_isFunction hfunction p hp ▸ List.suffix_cons _ _
  | false =>
    cases hvars : e.vars with
    | nil => exact e.frames_of_other hfunction hvars p hp ▸ List.suffix_refl _
    | cons v vs =>
      obtain ⟨kind, pos⟩ := e
      cases kind <;> cases hvars
      rw [Expr.parts_vars] at hp
      obtain ⟨w, -, -, hframes⟩ := Site.frames_inits p hp
      exact hframes ▸ List.suffix_cons _ _

theorem Expr.function_mem_frames_iff {s : Site} {e : Expr} {p : Site × Expr} (hp : p ∈ e.parts s) :
    .function ∈ p.1.frames ↔ e.isFunction = true ∨ .function ∈ s.frames := by
  cases hfunction : e.isFunction with
  | true => simp [e.frames_of_isFunction hfunction p hp]
  | false =>
    cases hvars : e.vars with
    | nil => simp [e.frames_of_other hfunction hvars p hp]
    | cons v vs =>
      obtain ⟨kind, pos⟩ := e
      cases kind <;> cases hvars
      rw [Expr.parts_vars] at hp
      obtain ⟨w, -, -, hframes⟩ := Site.frames_inits p hp
      rw [hframes]
      simp [Site.withScope]

/-! ## Places and visits -/

theorem Expr.exists_part {s : Site} {e child : Expr} (h : child ∈ e.children) :
    ∃ s', (s', child) ∈ e.parts s := by
  rw [← e.map_snd_parts s] at h
  obtain ⟨⟨s', child⟩, hp, rfl⟩ := List.mem_map.mp h
  exact ⟨s', hp⟩

/-- Whatever is visited has a place, and what stands around the start stands around it. -/
theorem Place.exists_of_mem_nodes {root : Expr} {s : Site} {e node : Expr}
    (hplace : Place root s e) (h : node ∈ e.nodes) :
    ∃ s', Place root s' node ∧ s.frames <:+ s'.frames := by
  induction e using Expr.induction_children generalizing s with
  | h e ih =>
    rw [Expr.nodes_eq] at h
    rcases List.mem_cons.mp h with rfl | h
    · exact ⟨s, hplace, List.suffix_refl _⟩
    · obtain ⟨child, hchild, h⟩ := List.mem_flatMap.mp h
      obtain ⟨s', hpart⟩ := Expr.exists_part (s := s) hchild
      obtain ⟨s'', hnode, hframes⟩ := ih child hchild (hplace.part hpart) h
      exact ⟨s'', hnode, (Expr.frames_suffix _ hpart).trans hframes⟩

theorem Expr.mem_nodes_of_mem_children {root e child : Expr} (he : e ∈ root.nodes)
    (hchild : child ∈ e.children) : child ∈ root.nodes := by
  induction root using Expr.induction_children with
  | h root ih =>
    rw [Expr.nodes_eq] at he ⊢
    refine List.mem_cons_of_mem _ (List.mem_flatMap.mpr ?_)
    rcases List.mem_cons.mp he with rfl | he
    · exact ⟨child, hchild, child.nodes_eq ▸ List.mem_cons_self⟩
    · obtain ⟨part, hpart, he⟩ := List.mem_flatMap.mp he
      exact ⟨part, hpart, ih part hpart he⟩

theorem Place.mem_nodes {root : Expr} {s : Site} {e : Expr} (hplace : Place root s e) :
    e ∈ root.nodes := by
  induction hplace with
  | root => exact root.nodes_eq ▸ List.mem_cons_self
  | part _ hpart ih =>
    exact Expr.mem_nodes_of_mem_children ih (Expr.mem_children_of_mem_parts hpart)

theorem Place.exists_function {root : Expr} {s : Site} {e : Expr} (hplace : Place root s e)
    (h : .function ∈ s.frames) : ∃ f ∈ root.nodes, f.isFunction = true ∧ e ∈ f.nodes := by
  induction hplace with
  | root => cases h
  | part hplace hpart ih =>
    have hchild := Expr.mem_children_of_mem_parts hpart
    rcases (Expr.function_mem_frames_iff hpart).mp h with hfunction | h
    · exact ⟨_, hplace.mem_nodes, hfunction, Expr.mem_nodes_of_mem_children
        (Expr.nodes_eq _ ▸ List.mem_cons_self) hchild⟩
    · obtain ⟨f, hf, hfunction, he⟩ := ih h
      exact ⟨f, hf, hfunction, Expr.mem_nodes_of_mem_children he hchild⟩

def Expr.places (s : Site) (e : Expr) : List (Site × Expr) :=
  (s, e) :: (e.parts s).attach.flatMap fun p => p.1.2.places p.1.1
termination_by e.nodes.length
decreasing_by exact Expr.length_nodes_lt (Expr.mem_children_of_mem_parts p.2)

theorem Expr.places_eq (s : Site) (e : Expr) :
    e.places s = (s, e) :: (e.parts s).flatMap fun p => p.2.places p.1 := by
  rw [places]
  conv_rhs => rw [← List.attach_map_subtype_val (e.parts s), List.flatMap_map]

theorem Place.of_mem_places {root : Expr} {s : Site} {e : Expr} (hplace : Place root s e) :
    ∀ p ∈ e.places s, Place root p.1 p.2 := by
  induction e using Expr.induction_children generalizing s with
  | h e ih =>
    rw [Expr.places_eq]
    refine List.forall_mem_cons.mpr ⟨hplace, fun p hp => ?_⟩
    obtain ⟨part, hpart, hp⟩ := List.mem_flatMap.mp hp
    exact ih part.2 (Expr.mem_children_of_mem_parts hpart) (hplace.part hpart) p hp

theorem Expr.mem_places_of_mem_parts {s : Site} {e : Expr} :
    ∀ p ∈ e.places s, ∀ q ∈ p.2.parts p.1, q ∈ e.places s := by
  induction e using Expr.induction_children generalizing s with
  | h e ih =>
    rw [places_eq]
    refine List.forall_mem_cons.mpr ⟨fun q hq => ?_, fun p hp q hq => ?_⟩
    · refine List.mem_cons_of_mem _ (List.mem_flatMap.mpr ⟨q, hq, ?_⟩)
      exact places_eq q.1 q.2 ▸ List.mem_cons_self
    · obtain ⟨part, hpart, hp⟩ := List.mem_flatMap.mp hp
      exact List.mem_cons_of_mem _ (List.mem_flatMap.mpr
        ⟨part, hpart, ih part.2 (mem_children_of_mem_parts hpart) p hp q hq⟩)

theorem place_iff_mem_places {root : Expr} {s : Site} {e : Expr} :
    Place root s e ↔ (s, e) ∈ root.places .top :=
  ⟨Place.mem_of_closed (root.places_eq .top ▸ List.mem_cons_self) Expr.mem_places_of_mem_parts,
    Place.root.of_mem_places (s, e)⟩

def Expr.declarations (root : Expr) : List (Site × Var) :=
  (root.places .top).flatMap fun p => p.2.vars.map (p.1, ·)

theorem Expr.mem_declarations_iff {root : Expr} {s : Site} {v : Var} :
    (s, v) ∈ root.declarations ↔ ∃ e, Place root s e ∧ v ∈ e.vars := by
  simp [declarations, place_iff_mem_places]

theorem Place.localVars_subset {root : Expr} {s : Site} {e : Expr} (hplace : Place root s e)
    (h : .function ∉ s.frames) : e.localVars ⊆ root.localVars := by
  induction hplace with
  | root => exact List.Subset.refl _
  | @part s s' e e' _ hpart ih =>
    rw [Expr.function_mem_frames_iff hpart, not_or, Bool.not_eq_true] at h
    refine List.Subset.trans ?_ (ih h.2)
    rw [Expr.localVars_eq e, h.1]
    exact fun v hv => List.mem_append_right _
      (List.mem_flatMap.mpr ⟨e', Expr.mem_children_of_mem_parts hpart, hv⟩)

theorem Place.exists_of_mem_localVars {root : Expr} {s : Site} {e : Expr} {v : Var}
    (hplace : Place root s e) (hframes : .function ∉ s.frames) (h : v ∈ e.localVars) :
    ∃ s' e', Place root s' e' ∧ .function ∉ s'.frames ∧ v ∈ e'.vars := by
  induction e using Expr.induction_children generalizing s with
  | h e ih =>
    rw [Expr.localVars_eq] at h
    rcases List.mem_append.mp h with h | h
    · exact ⟨s, e, hplace, hframes, h⟩
    · cases hfunction : e.isFunction with
      | true =>
        rw [hfunction] at h
        cases h
      | false =>
        rw [hfunction] at h
        obtain ⟨child, hchild, h⟩ := List.mem_flatMap.mp h
        obtain ⟨s', hpart⟩ := Expr.exists_part (s := s) hchild
        refine ih child hchild (hplace.part hpart) (fun hmem => ?_) h
        rcases (Expr.function_mem_frames_iff hpart).mp hmem with hmem | hmem
        · exact Bool.false_ne_true (hfunction.symm.trans hmem)
        · exact hframes hmem

/-! ## Replacing at places -/

/-- Replaces all expressions from the bottom, each by its place and what it has become. -/
def Expr.mapSites (f : Site → Expr → Expr) (s : Site) (e : Expr) : Expr :=
  f s ⟨e.kind.withChildren ((e.parts s).attach.map fun p => p.1.2.mapSites f p.1.1), e.pos⟩
termination_by e.nodes.length
decreasing_by exact Expr.length_nodes_lt (Expr.mem_children_of_mem_parts p.2)

section
variable (f : Site → Expr → Expr)

theorem Expr.mapSites_eq (s : Site) (e : Expr) :
    e.mapSites f s =
      f s ⟨e.kind.withChildren ((e.parts s).map fun p => p.2.mapSites f p.1), e.pos⟩ := by
  rw [mapSites]
  conv_rhs => rw [← List.attach_map_subtype_val (e.parts s), List.map_map]
  rfl

variable {f} {g : Site → Expr → Expr}

/-- Two replacements that do the same at every place of a body do the same. -/
theorem Expr.mapSites_congr {root : Expr}
    (h : ∀ s e es, Place root s e → f s ⟨e.kind.withChildren es, e.pos⟩ =
      g s ⟨e.kind.withChildren es, e.pos⟩)
    {s : Site} {e : Expr} (hplace : Place root s e) : e.mapSites f s = e.mapSites g s := by
  induction e using Expr.induction_children generalizing s with
  | h e ih =>
    have hparts : (e.parts s).map (fun p => p.2.mapSites f p.1) =
        (e.parts s).map fun p => p.2.mapSites g p.1 :=
      List.map_congr_left fun p hp =>
        ih p.2 (Expr.mem_children_of_mem_parts hp) (hplace.part hp)
    rw [mapSites_eq, mapSites_eq, hparts, h s e _ hplace]

theorem Expr.length_map_parts {α : Type} (k : Site × Expr → α) (s : Site) (e : Expr) :
    ((e.parts s).map k).length = e.kind.children.length := by
  rw [← children, ← e.map_snd_parts s, List.length_map, List.length_map]

def TellParts (f g : Site → Expr → Expr) : Prop :=
  ∀ (s : Site) (e : Expr) (es es' : List Expr), es.length = e.kind.children.length →
    es'.length = e.kind.children.length →
      f s ⟨e.kind.withChildren es, e.pos⟩ = g s ⟨e.kind.withChildren es', e.pos⟩ → es = es'

/-- If a body comes out the same from two replacements, then so does everything in it. -/
theorem Place.mapSites_eq {root : Expr} (htell : TellParts f g)
    (h : root.mapSites f .top = root.mapSites g .top) {s : Site} {e : Expr}
    (hplace : Place root s e) : e.mapSites f s = e.mapSites g s := by
  induction hplace with
  | root => exact h
  | @part s s' e e' _ hpart ih =>
    rw [Expr.mapSites_eq, Expr.mapSites_eq] at ih
    have hparts := htell s e _ _ (e.length_map_parts _ s) (e.length_map_parts _ s) ih
    exact List.map_inj_left.mp hparts _ hpart

/-- Where the replacement is the same at a place and at all places inside, it is a plain one. -/
theorem Expr.mapSites_eq_mapUp {P : Site → Prop} {g : Expr → Expr}
    (hparts : ∀ (s : Site) (e : Expr), P s → ∀ p ∈ e.parts s, P p.1)
    (hf : ∀ s e, P s → f s e = g e)
    {s : Site} {e : Expr} (hs : P s) : e.mapSites f s = e.mapUp g := by
  induction e using Expr.induction_children generalizing s with
  | h e ih =>
    have hchildren : (e.parts s).map (fun p => p.2.mapSites f p.1) =
        e.kind.children.map (·.mapUp g) := by
      rw [← Expr.children, ← e.map_snd_parts s, List.map_map]
      exact List.map_congr_left fun p hp =>
        ih p.2 (Expr.mem_children_of_mem_parts hp) (hparts s e hs p hp)
    obtain ⟨kind, pos⟩ := e
    rw [mapSites_eq, hf s _ hs, hchildren, ExprKind.withChildren_map, mapUp_eq]

end

end HaxeMacro
