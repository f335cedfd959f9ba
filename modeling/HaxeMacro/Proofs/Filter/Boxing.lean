import HaxeMacro.Filter.CaptureBox
import HaxeMacro.Proofs.Filter.BodyVisits
import HaxeMacro.Proofs.Fragment.Binding

/-! # Boxed names

Which locals are boxed, and which identifiers stand for a box, is decided by the names alone. This
is right as long as all identifiers with such a name mean variables.
-/

namespace HaxeMacro

/-- Whether the innermost binder of a name is a variable. -/
def Site.meansLocal (s : Site) (name : String) : Bool :=
  match s.binder? name with
  | some (.local _ _) => true
  | _ => false

namespace Filter

/-! ## The names -/

theorem declaredNames_eq (e : Expr) : declaredNames e = e.localVars.map (·.name) := by
  rw [declaredNames, Expr.localVars, List.map_flatMap]
  refine List.flatMap_congr fun node _ => ?_
  obtain ⟨kind, pos⟩ := node
  cases kind <;> rfl

theorem mem_declaredNames_iff {e : Expr} {name : String} :
    name ∈ declaredNames e ↔
      ∃ s v, (s, v) ∈ e.declarations ∧ .function ∉ s.frames ∧ v.name = name := by
  rw [declaredNames_eq, List.mem_map]
  constructor
  · rintro ⟨v, hv, rfl⟩
    obtain ⟨s, e', hplace, hframes, hv⟩ := Place.root.exists_of_mem_localVars List.not_mem_nil hv
    exact ⟨s, v, Expr.mem_declarations_iff.mpr ⟨e', hplace, hv⟩, hframes, rfl⟩
  · rintro ⟨s, v, hdeclared, hframes, rfl⟩
    obtain ⟨e', hplace, hv⟩ := Expr.mem_declarations_iff.mp hdeclared
    refine ⟨v, hplace.localVars_subset hframes ?_, rfl⟩
    rw [Expr.localVars_eq]
    exact List.mem_append_left _ hv

theorem assignedName?_of_isFunction {e : Expr} (h : e.isFunction = true) :
    assignedName? e = none := by
  obtain ⟨kind, pos⟩ := e
  cases kind <;> first | rfl | cases h

theorem mem_namesAssignedInFunctions_iff {e : Expr} {name : String} :
    name ∈ namesAssignedInFunctions e ↔
      ∃ s a, Place e s a ∧ .function ∈ s.frames ∧ assignedName? a = some name := by
  simp only [namesAssignedInFunctions, List.mem_flatMap, List.mem_filter, List.mem_filterMap]
  constructor
  · rintro ⟨f, ⟨hf, hfunction⟩, a, ha, hname⟩
    obtain ⟨s, hplace, -⟩ := Place.root.exists_of_mem_nodes hf
    rw [Expr.nodes_eq] at ha
    rcases List.mem_cons.mp ha with rfl | ha
    · rw [assignedName?_of_isFunction hfunction] at hname
      cases hname
    · obtain ⟨child, hchild, ha⟩ := List.mem_flatMap.mp ha
      obtain ⟨inner, hpart⟩ := Expr.exists_part (s := s) hchild
      obtain ⟨s', hplace', hframes⟩ := (hplace.part hpart).exists_of_mem_nodes ha
      refine ⟨s', a, hplace', hframes.subset ?_, hname⟩
      exact (Expr.function_mem_frames_iff hpart).mpr (.inl hfunction)
  · rintro ⟨s, a, hplace, hframes, hname⟩
    obtain ⟨f, hf, hfunction, ha⟩ := hplace.exists_function hframes
    exact ⟨f, ⟨hf, hfunction⟩, a, ha, hname⟩

/-- A name is boxed if a variable of this name is declared outside function literals, and an
identifier of this name is assigned in one. -/
theorem mem_boxedNames_iff {e : Expr} {name : String} :
    name ∈ boxedNames e ↔
      (∃ s v, (s, v) ∈ e.declarations ∧ .function ∉ s.frames ∧ v.name = name) ∧
        ∃ s a, Place e s a ∧ .function ∈ s.frames ∧ assignedName? a = some name := by
  rw [← mem_declaredNames_iff, ← mem_namesAssignedInFunctions_iff]
  simp [boxedNames]

/-! ## Boxed places -/

/-- One expression when the variables with these names are kept in arrays of one item: an identifier
that means such a variable becomes its first item. -/
def boxMeant (names : List String) (s : Site) : Expr → Expr
  | ⟨.const (.ident name), pos⟩ =>
    if name ∈ names ∧ s.meansLocal name then ⟨.index (.ident name pos) (.int "0" pos), pos⟩
    else .ident name pos
  | ⟨.vars vs, pos⟩ =>
    let box (v : Var) : Var :=
      { v with type := none, init := some ⟨.array [v.init.getD (.null pos)], pos⟩ }
    ⟨.vars (vs.map fun v => if v.name ∈ names then box v else v), pos⟩
  | e => e

section
variable {names : List String}

def isBoxable : ExprKind → Bool
  | .const (.ident _) | .vars _ => true
  | _ => false

theorem boxNode_of_not_isBoxable {kind : ExprKind} {pos : Position} (h : isBoxable kind = false) :
    boxNode names ⟨kind, pos⟩ = ⟨kind, pos⟩ := by
  cases kind with
  | const c => cases c <;> first | rfl | cases h
  | vars => cases h
  | _ => rfl

theorem boxMeant_of_ne {s : Site} {kind : ExprKind} {pos : Position}
    (h : ∀ name, kind ≠ .const (.ident name)) :
    boxMeant names s ⟨kind, pos⟩ = boxNode names ⟨kind, pos⟩ := by
  cases kind with
  | const c =>
    cases c with
    | ident name => exact absurd rfl (h name)
    | _ => rfl
  | _ => rfl

theorem boxNode_nil (e : Expr) : boxNode [] e = e := by
  obtain ⟨kind, pos⟩ := e
  cases kind with
  | const c => cases c <;> rfl
  | vars vs =>
    exact congrArg (fun vs => Expr.mk (.vars vs) pos) (List.map_id'' (fun v => rfl) vs)
  | _ => rfl

theorem fst_boxCaptured (e : Expr) :
    (boxCaptured e).1 = e.mapSites (fun _ => boxNode (boxedNames e)) .top := by
  have hmap : e.mapSites (fun _ => boxNode (boxedNames e)) .top =
      e.mapUp (boxNode (boxedNames e)) :=
    Expr.mapSites_eq_mapUp (P := fun _ => True) (g := boxNode (boxedNames e))
      (fun _ _ _ _ _ => trivial) (fun _ _ _ => rfl) trivial
  rw [hmap, boxCaptured]
  split
  · rename_i hnil
    rw [hnil, Expr.mapUp_eq_self boxNode_nil]
  · rfl

theorem inits_of_map_boxVar_eq {pos : Position} {vs : List Var} {es es' : List Expr}
    (hlength : es.length = (vs.filterMap (·.init)).length)
    (hlength' : es'.length = (vs.filterMap (·.init)).length)
    (h : (withInits vs es).map (boxVar names pos) = (withInits vs es').map (boxVar names pos)) :
    es = es' := by
  induction vs generalizing es es' with
  | nil => rw [List.length_eq_zero_iff.mp hlength, List.length_eq_zero_iff.mp hlength']
  | cons v vs ih =>
    obtain ⟨name, type, init, isFinal, isStatic, annotations⟩ := v
    cases init with
    | none => exact ih hlength hlength' (List.cons.inj h).2
    | some e =>
      obtain ⟨x, xs, rfl⟩ := List.exists_cons_of_length_eq_add_one hlength
      obtain ⟨y, ys, rfl⟩ := List.exists_cons_of_length_eq_add_one hlength'
      obtain ⟨hhead, htail⟩ := List.cons.inj h
      have hinit : x = y := by
        have hinit := congrArg Var.init hhead
        unfold boxVar at hinit
        dsimp only at hinit
        split at hinit <;> simpa using hinit
      rw [hinit, ih (Nat.succ.inj hlength) (Nat.succ.inj hlength') htail]

theorem tellParts_boxNode : TellParts (fun _ => boxNode names) (boxMeant names) := by
  rintro s ⟨kind, pos⟩ es es' hlength hlength' h
  obtain ⟨name, rfl⟩ | hne := kind.ident_or_ne
  · rw [List.length_eq_zero_iff.mp hlength, List.length_eq_zero_iff.mp hlength']
  · rw [boxMeant_of_ne (ExprKind.withChildren_ne_ident hne es')] at h
    change boxNode names ⟨kind.withChildren es, pos⟩ = boxNode names ⟨kind.withChildren es', pos⟩
      at h
    by_cases hvars : ∃ vs, kind = .vars vs
    · obtain ⟨vs, rfl⟩ := hvars
      simp only [ExprKind.withChildren, boxNode, Expr.mk.injEq, ExprKind.vars.injEq] at h
      exact inits_of_map_boxVar_eq hlength hlength' h.1
    · have hother : isBoxable kind = false := by
        cases kind with
        | const c =>
          cases c with
          | ident name => exact absurd rfl (hne name)
          | _ => rfl
        | vars vs => exact absurd ⟨vs, rfl⟩ hvars
        | _ => rfl
      have hform {es : List Expr} (hlength : es.length = kind.children.length) :
          isBoxable (kind.withChildren es) = false :=
        (ExprKind.of_withChildren (fun g kind => by cases kind <;> rfl) hlength).trans hother
      rw [boxNode_of_not_isBoxable (hform hlength), boxNode_of_not_isBoxable (hform hlength')] at h
      exact ExprKind.withChildren_inj hlength hlength' (congrArg Expr.kind h)

end

/-! ## Bodies -/

theorem boxNode_ident_eq_iff {names : List String} {s : Site} {name : String} {pos : Position} :
    boxNode names (.ident name pos) = boxMeant names s (.ident name pos) ↔
      (name ∈ names → s.meansLocal name = true) := by
  by_cases hname : name ∈ names <;> by_cases hmeans : s.meansLocal name = true <;>
    simp [boxNode, boxMeant, Expr.ident, hname, hmeans]

theorem boxCaptured_eq_iff (e : Expr) :
    (boxCaptured e).1 = e.mapSites (boxMeant (boxedNames e)) .top ↔
      ∀ s name pos, Place e s (.ident name pos) → name ∈ boxedNames e →
        s.meansLocal name = true := by
  rw [fst_boxCaptured]
  constructor
  · intro heq s name pos hplace
    -- Equal bodies have equal parts, so the identifier itself is treated alike.
    have hident := hplace.mapSites_eq tellParts_boxNode heq
    rw [Expr.mapSites_eq, Expr.mapSites_eq] at hident
    exact boxNode_ident_eq_iff.mp hident
  · intro hmeans
    refine Expr.mapSites_congr (fun s e' es hplace => ?_) .root
    obtain ⟨kind, pos⟩ := e'
    obtain ⟨name, rfl⟩ | hne := kind.ident_or_ne
    · exact boxNode_ident_eq_iff.mpr (hmeans s name pos hplace)
    · exact (boxMeant_of_ne (ExprKind.withChildren_ne_ident hne es)).symm

theorem exists_operand {s : Site} {a : Expr} {name : String} (h : assignedName? a = some name) :
    ∃ pos, (s.withScope s.scope, .ident name pos) ∈ a.parts s := by
  have hident {e : Expr} (h : e.ident? = some name) : ∃ pos, e = .ident name pos := by
    unfold Expr.ident? at h
    split at h
    · cases h
      exact ⟨_, rfl⟩
    · cases h
  have hparts : a.parts s = a.kind.parts (s.withScope s.scope) := by
    obtain hparts | ⟨-, left, items, hkind, -⟩ := a.parts_cases s
    · exact hparts
    · obtain ⟨kind, pos⟩ := a
      cases hkind
      cases h
  rw [hparts]
  unfold assignedName? at h
  split at h
  all_goals first
    | cases h
    | obtain ⟨pos, rfl⟩ := hident h
      exact ⟨pos, List.mem_cons_self⟩

/-- A variable is declared outside function literals, and assigned inside one, by an expression that
means this variable. -/
def AssignedInFunction (root : Expr) (s : Site) (v : Var) : Prop :=
  .function ∉ s.frames ∧ ∃ t a, Place root t a ∧ assignedName? a = some v.name ∧
    .function ∈ t.frames ∧ t.binder? v.name = some (.local v.isStatic s.frames)

theorem assigned_of_boxed {root : Expr} {s : Site} {v : Var} (hboxed : v.name ∈ boxedNames root)
    (honly : root.declarations.filter (·.2.name = v.name) = [(s, v)])
    (hmeans : ∀ t pos, Place root t (.ident v.name pos) → t.meansLocal v.name = true) :
    AssignedInFunction root s v := by
  -- The name is declared once, so whatever it means is this declaration.
  have heq {t : Site} {w : Var} (h : (t, w) ∈ root.declarations) (hw : w.name = v.name) :
      t = s ∧ w = v := by
    have hmem : (t, w) ∈ root.declarations.filter (·.2.name = v.name) := by simp [h, hw]
    rw [honly] at hmem
    exact Prod.mk.inj (List.mem_singleton.mp hmem)
  obtain ⟨⟨t, w, hdeclared, hframes, hw⟩, u, a, hplace, hinside, hassigned⟩ :=
    mem_boxedNames_iff.mp hboxed
  obtain ⟨rfl, rfl⟩ := heq hdeclared hw
  refine ⟨hframes, u, a, hplace, hassigned, hinside, ?_⟩
  -- Nothing becomes known between an assignment and its first part.
  obtain ⟨pos, hoperand⟩ := exists_operand (s := u) hassigned
  have hlocal := hmeans _ pos (hplace.part hoperand)
  unfold Site.meansLocal at hlocal
  split at hlocal
  · rename_i isStatic frames hbinder
    obtain ⟨u', e, w', hplace', rfl, hv, hname, rfl⟩ :=
      (hplace.part hoperand).declared_of_binder? hbinder
    obtain ⟨rfl, rfl⟩ := heq (Expr.mem_declarations_iff.mpr ⟨e, hplace', hv⟩) hname
    exact hbinder
  · cases hlocal

/-- The identifiers that mean a boxed variable are boxed, and no others, if and only if all
identifiers with the name of a boxed variable mean a variable. Which names those are depends on
declarations outside function literals and on assignments inside, whatever they mean. -/
theorem captureBox_respects_scopes_iff (c : ClassDef) :
    captureBox c = (c.mapBodies fun _ e => (boxCaptured e).1,
        .ok ((c.bodyExprs.map fun b => (boxedNames b.2).length).sum)) ∧
      ∀ b ∈ c.bodyExprs,
        (∀ name, name ∈ boxedNames b.2 ↔
          (∃ s v, (s, v) ∈ b.2.declarations ∧ .function ∉ s.frames ∧ v.name = name) ∧
            ∃ s a, Place b.2 s a ∧ .function ∈ s.frames ∧ assignedName? a = some name) ∧
        ((boxCaptured b.2).1 = b.2.mapSites (boxMeant (boxedNames b.2)) .top ↔
          ∀ s name pos, Place b.2 s (.ident name pos) → name ∈ boxedNames b.2 →
            s.meansLocal name = true) ∧
        ∀ s v, v.name ∈ boxedNames b.2 →
          b.2.declarations.filter (·.2.name = v.name) = [(s, v)] →
          (∀ t pos, Place b.2 t (.ident v.name pos) → t.meansLocal v.name = true) →
          AssignedInFunction b.2 s v := by
  refine ⟨?_, fun b _ => ⟨fun name => mem_boxedNames_iff, boxCaptured_eq_iff b.2, fun s v => ?_⟩⟩
  · have hcount (e : Expr) : (boxCaptured e).2 = (boxedNames e).length := by
      rw [boxCaptured]
      split
      · rename_i hnil
        rw [hnil]
        rfl
      · rfl
    simp only [captureBox, ClassDef.countBodies_eq, hcount]
    rfl
  · exact assigned_of_boxed

def declaration : Expr := ⟨.vars [⟨"n", none, none, false, false, []⟩], .null⟩

def increment : Expr := ⟨.unary .increment true (.ident "n" .null), .null⟩

def incrementer : Expr := ⟨.function .anonymous ⟨[], none, some increment, []⟩, .null⟩

def assignedBody : Expr := ⟨.block [declaration, incrementer], .null⟩

theorem places_assignedBody :
    let outside : Site := ⟨[("n", .local false [])], [], false⟩
    let inside := outside.within .function
    assignedBody.places .top = [(.top, assignedBody), (.top, declaration), (outside, incrementer),
      (inside, increment), (inside, .ident "n" .null)] := by
  intro outside inside
  have hbody : assignedBody.places .top = (.top, assignedBody) ::
    (declaration.places .top ++ (incrementer.places outside ++ [])) := Expr.places_eq _ _
  have hdeclaration : declaration.places .top = [(.top, declaration)] := Expr.places_eq _ _
  have hincrementer : incrementer.places outside = (outside, incrementer) ::
    (increment.places inside ++ []) := Expr.places_eq _ _
  have hincrement : increment.places inside = (inside, increment) ::
    ((Expr.ident "n" .null).places inside ++ []) := Expr.places_eq _ _
  have hident : (Expr.ident "n" .null).places inside = [(inside, .ident "n" .null)] :=
    Expr.places_eq _ _
  rw [hbody, hdeclaration, hincrementer, hincrement, hident]
  rfl

theorem captureBox_respects_scopes_assigned :
    (boxCaptured assignedBody).1 =
        assignedBody.mapSites (boxMeant (boxedNames assignedBody)) .top ∧
      AssignedInFunction assignedBody .top ⟨"n", none, none, false, false, []⟩ := by
  obtain ⟨-, hmeant, hassigned⟩ :=
    (captureBox_respects_scopes_iff (withRun assignedBody)).2 ("run", assignedBody) (.head _)
  have hmeans (s : Site) (name : String) (pos : Position)
      (hplace : Place assignedBody s (.ident name pos)) : s.meansLocal name = true := by
    rw [place_iff_mem_places, places_assignedBody] at hplace
    obtain ⟨rfl, rfl, -⟩ : s = Site.within ⟨[("n", .local false [])], [], false⟩ .function ∧
        name = "n" ∧ pos = .null := by
      simpa [assignedBody, declaration, incrementer, increment, Expr.ident] using hplace
    rfl
  refine ⟨hmeant.mpr fun s name pos hplace _ => hmeans s name pos hplace,
    hassigned .top _ (.head _) ?_ fun t pos hplace => hmeans t "n" pos hplace⟩
  rw [Expr.declarations, places_assignedBody]
  rfl

/-- `{ var n = 1; var f = function(n) n = 2; n; }` -/
def assignedParamBody (pos : Position) : Expr :=
  let body : Expr := ⟨.binary .assign (.ident "n" pos) (.int "2" .null), .null⟩
  let params : List Param := [⟨"n", false, none, none, []⟩]
  let f : Expr := ⟨.function .anonymous ⟨params, none, some body, []⟩, .null⟩
  ⟨.block [declare false "n" (.int "1" .null), declare false "f" f, .ident "n" .null], .null⟩

/-- A parameter is boxed. -/
theorem captureBox_boxes_param :
    let pos : Position := ⟨0, 1, 2⟩
    ∃ s, Place (assignedParamBody pos) s (.ident "n" pos) ∧ s.binder? "n" = some .param ∧
      ∃ b ∈ (captureBox (withRun (assignedParamBody pos))).1.bodyExprs,
        ⟨.index (.ident "n" pos) (.int "0" pos), pos⟩ ∈ b.2.nodes := by
  refine ⟨_, .part (.part (.part (.part .root (.tail _ (.head _))) (.head _)) (.head _)) (.head _),
    rfl, _, .head _, List.mem_of_getElem? (i := 7) rfl⟩

end Filter

end HaxeMacro
