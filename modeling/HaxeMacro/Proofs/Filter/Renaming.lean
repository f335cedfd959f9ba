import HaxeMacro.Proofs.Filter.Hoisting
import HaxeMacro.Proofs.Fragment.Binding

/-! # Names of hoisted variables

An identifier takes the name of a hoisted static variable by the name alone, wherever it stands in
the stripped body. In the initial values of the hoisted variables no identifier takes a new name.
-/

namespace HaxeMacro

/-! ## Places of hoisted variables -/

namespace Site

def inHoisted (s : Site) : Bool := s.frames.getLast? == some (.init true)

/-- Whether a name means a hoisted variable: its innermost binder is a static variable that is
declared outside function literals and initial values. -/
def meansHoisted (s : Site) (name : String) : Bool := s.binder? name == some (.local true [])

end Site

theorem Expr.vars_subset_outerVars (e : Expr) : e.vars ⊆ e.outerVars := by
  rw [outerVars_eq]
  exact List.subset_append_left _ _

theorem Place.outerVars_subset {root : Expr} {s : Site} {e : Expr} (hplace : Place root s e)
    (hframes : s.frames = []) : e.outerVars ⊆ root.outerVars := by
  induction hplace with
  | root => exact List.Subset.refl _
  | @part s s' e e' hplace hpart ih =>
    -- A part inside a function literal or an initial value has that around it.
    have houter : s.frames = [] :=
      List.suffix_nil.mp (hframes ▸ Expr.frames_suffix _ hpart)
    have hfunction : e.isFunction = false := by
      refine Bool.eq_false_iff.mpr fun hfunction => ?_
      have := Expr.frames_of_isFunction hfunction _ hpart
      rw [hframes] at this
      cases this
    have hvars : e.vars = [] := by
      refine List.eq_nil_iff_forall_not_mem.mpr fun v hv => ?_
      obtain ⟨kind, pos⟩ := e
      cases kind <;> try cases hv
      all_goals
        rw [Expr.parts_vars] at hpart
        obtain ⟨w, -, -, hinit⟩ := Site.frames_inits _ hpart
        rw [hframes] at hinit
        cases hinit
    refine List.Subset.trans ?_ (ih houter)
    rw [Expr.outerVars_parts hfunction hvars]
    exact fun v hv => List.mem_flatMap.mpr ⟨e', Expr.mem_children_of_mem_parts hpart, hv⟩

theorem Place.mem_of_meansHoisted {root : Expr} {s : Site} {e : Expr} (hplace : Place root s e)
    {name : String} (h : s.meansHoisted name = true) : name ∈ root.outerStatics.map (·.name) := by
  obtain ⟨s', e', v, hdeclared, hframes, hv, rfl, hstatic⟩ :=
    hplace.declared_of_binder? (eq_of_beq h)
  have hmem := hdeclared.outerVars_subset hframes (e'.vars_subset_outerVars hv)
  exact List.mem_map.mpr ⟨v, List.mem_filter.mpr ⟨hmem, hstatic⟩, rfl⟩

/-! ## Renamed places -/

def onIdents (rename : Site → String → String) (s : Site) : Expr → Expr
  | ⟨.const (.ident name), pos⟩ => .ident (rename s name) pos
  | e => e

namespace Filter

namespace Hoisting

/-- The name that an identifier is given when the variables with these names are hoisted. -/
def givenName (field : String) (names : List String) (s : Site) (name : String) : String :=
  if s.inHoisted then name else rename field names name

def meantName (field : String) (s : Site) (name : String) : String :=
  if s.meansHoisted name then field ++ "_" ++ name else name

section
variable (field : String) (names : List String)

theorem mapSites_givenName_inside {s : Site} {frame : Frame} (h : s.frames.getLast? = some frame)
    (e : Expr) :
    e.mapSites (onIdents (givenName field names)) s =
      e.renameIdents (if frame = .init true then id else rename field names) := by
  refine Expr.mapSites_eq_mapUp (P := fun s => s.frames.getLast? = some frame) ?_ ?_ h
  · intro s e hs p hp
    obtain ⟨inner, hframes⟩ := Expr.frames_suffix p hp
    rw [← hframes, List.getLast?_append, hs]
    rfl
  · rintro s ⟨kind, pos⟩ hs
    cases kind with
    | const c =>
      cases c with
      | ident name =>
        rw [onIdents, givenName, Site.inHoisted, hs]
        by_cases hframe : frame = .init true <;> simp [hframe, Expr.ident]
      | _ => rfl
    | _ => rfl

theorem onIdents_of_ne {f : Site → String → String} {s : Site} {kind : ExprKind} {pos : Position}
    (h : ∀ name, kind ≠ .const (.ident name)) : onIdents f s ⟨kind, pos⟩ = ⟨kind, pos⟩ := by
  cases kind with
  | const c =>
    cases c with
    | ident name => exact absurd rfl (h name)
    | _ => rfl
  | _ => rfl

theorem takeStatics_withChildren {kind : ExprKind} {pos : Position} {es : List Expr}
    (hlength : es.length = kind.children.length) (h : takeStatics ⟨kind, pos⟩ = none) :
    takeStatics ⟨kind.withChildren es, pos⟩ = none := by
  rw [← Option.isNone_iff_eq_none] at h ⊢
  rwa [ExprKind.of_withChildren (k := fun kind => (takeStatics ⟨kind, pos⟩).isNone) ?_ hlength]
  rintro g kind
  cases kind <;> rfl

theorem splitStatics_withChildren {kind : ExprKind} {pos : Position} {es : List Expr}
    (hlength : es.length = kind.children.length) (h : takeStatics ⟨kind, pos⟩ = none) :
    splitStatics ⟨kind.withChildren es, pos⟩ =
      (⟨kind.withChildren (es.map fun e => (splitStatics e).1), pos⟩,
        es.flatMap fun e => (splitStatics e).2) := by
  rw [splitStatics_parts (takeStatics_withChildren hlength h), Expr.children,
    ExprKind.children_withChildren hlength, ExprKind.mapChildren_withChildren _ hlength]

theorem renameIdents_fst_splitStatics {f : String → String} {kind : ExprKind} {pos : Position}
    (hident : ∀ name, kind ≠ .const (.ident name)) (h : takeStatics ⟨kind, pos⟩ = none) :
    (splitStatics ⟨kind, pos⟩).1.renameIdents f =
      ⟨kind.withChildren (kind.children.map fun e => (splitStatics e).1.renameIdents f), pos⟩ := by
  rw [splitStatics_parts h, Expr.renameIdents_of_ne, ExprKind.mapChildren_mapChildren,
    ← ExprKind.withChildren_map]
  · rfl
  · rw [← kind.withChildren_map]
    exact ExprKind.withChildren_ne_ident hident _

def renameLocal (f : String → String) (v : Var) : Var :=
  if v.isStatic then v else { v with init := v.init.map (·.renameIdents f) }

theorem filter_isStatic_map_renameLocal (f : String → String) (vs : List Var) :
    (vs.map (renameLocal f)).filter (·.isStatic) = vs.filter (·.isStatic) := by
  induction vs with
  | nil => rfl
  | cons v vs ih => cases h : v.isStatic <;> simp [renameLocal, h, ih]

theorem filter_not_isStatic_map_renameLocal (f : String → String) (vs : List Var) :
    (vs.map (renameLocal f)).filter (fun v => !v.isStatic) =
      (vs.filter fun v => !v.isStatic).map fun v =>
        { v with init := v.init.map (·.renameIdents f) } := by
  induction vs with
  | nil => rfl
  | cons v vs ih => cases h : v.isStatic <;> simp [renameLocal, h, ih]

theorem withInits_inits {s : Site} (h : s.frames = []) (vs : List Var) :
    withInits vs ((s.inits vs).map fun p => p.2.mapSites (onIdents (givenName field names)) p.1) =
      vs.map (renameLocal (rename field names)) := by
  induction vs generalizing s with
  | nil => rfl
  | cons v vs ih =>
    obtain ⟨name, type, init, isFinal, isStatic, annotations⟩ := v
    cases init with
    | none => cases isStatic <;> exact congrArg (_ :: ·) (ih (s := s.withScope _) h)
    | some e =>
      have hinside : (s.within (.init isStatic)).frames.getLast? = some (.init isStatic) := by
        rw [Site.within, h]
        rfl
      have hinit : e.mapSites (onIdents (givenName field names)) (s.within (.init isStatic)) =
          e.renameIdents (if isStatic then id else rename field names) := by
        rw [mapSites_givenName_inside field names hinside]
        cases isStatic <;> rfl
      change (⟨name, type, some (e.mapSites _ _), isFinal, isStatic, annotations⟩ : Var) ::
        withInits vs _ = _ :: _
      rw [hinit]
      cases isStatic with
      | true =>
        rw [if_pos rfl, Expr.renameIdents_id]
        exact congrArg (_ :: ·) (ih (s := s.withScope _) h)
      | false => exact congrArg (_ :: ·) (ih (s := s.withScope _) h)

/-- Taking the variables out after the identifiers were renamed by their places. -/
theorem splitStatics_mapSites {s : Site} (h : s.frames = []) (e : Expr) :
    splitStatics (e.mapSites (onIdents (givenName field names)) s) =
      ((splitStatics e).1.renameIdents (rename field names), (splitStatics e).2) := by
  induction e using Expr.induction_children generalizing s with
  | h e ih =>
    obtain hfunction | ⟨vs, pos, rfl⟩ | ⟨hnone, hfunction, hvars⟩ := takeStatics_cases e
    · -- Inside a function literal nothing is taken out, and all identifiers are treated alike.
      have hparts : (e.parts s).map (fun p => p.2.mapSites (onIdents (givenName field names)) p.1) =
          e.kind.children.map (·.renameIdents (rename field names)) := by
        rw [← Expr.children, ← e.map_snd_parts s, List.map_map]
        refine List.map_congr_left fun p hp => ?_
        have hinside : p.1.frames.getLast? = some .function := by
          rw [Expr.frames_of_isFunction hfunction p hp, h]
          rfl
        exact mapSites_givenName_inside field names hinside p.2
      rw [Expr.mapSites_eq, hparts, ExprKind.withChildren_map, splitStatics_function hfunction]
      obtain ⟨kind, pos⟩ := e
      cases kind <;> cases hfunction
      exact (splitStatics_function (by rfl)).trans (by rw [Expr.renameIdents_eq]; rfl)
    · -- In a declaration, only the initial values of variables that stay are renamed.
      rw [Expr.mapSites_eq, Expr.parts_vars, ExprKind.withChildren,
        withInits_inits field names (s := s.withScope s.scope) h]
      change splitStatics ⟨.vars (vs.map (renameLocal (rename field names))), pos⟩ = _
      rw [splitStatics_vars, splitStatics_vars, filter_isStatic_map_renameLocal,
        filter_not_isStatic_map_renameLocal]
      cases vs.filter fun v => !v.isStatic with
      | nil => rfl
      | cons v vs =>
        dsimp only
        rw [Expr.renameIdents_eq]
        rfl
    · -- The parts of any other form stand, as the form does, where nothing stands around.
      have hparts (p : Site × Expr) (hp : p ∈ e.parts s) :=
        ih p.2 (Expr.mem_children_of_mem_parts hp)
          (s := p.1) ((Expr.frames_of_other hfunction hvars p hp).trans h)
      obtain ⟨kind, pos⟩ := e
      rw [Expr.mapSites_eq]
      obtain ⟨name, rfl⟩ | hne := kind.ident_or_ne
      · change splitStatics (.ident (givenName field names s name) pos) = _
        rw [givenName, Site.inHoisted, h]
        rfl
      · rw [onIdents_of_ne (ExprKind.withChildren_ne_ident hne _),
          splitStatics_withChildren (Expr.length_map_parts _ s ⟨kind, pos⟩) hnone,
          renameIdents_fst_splitStatics hne hnone]
        have hchildren : kind.children = _ := (Expr.map_snd_parts s ⟨kind, pos⟩).symm
        refine Prod.ext (congrArg (fun es => Expr.mk (kind.withChildren es) pos) ?_) ?_
        · rw [hchildren, List.map_map, List.map_map]
          exact List.map_congr_left fun p hp => congrArg Prod.fst (hparts p hp)
        · rw [splitStatics_parts hnone, List.flatMap_map, Expr.children, hchildren,
            List.flatMap_map]
          exact List.flatMap_congr fun p hp => congrArg (fun split => split.2) (hparts p hp)

end

/-- An identifier keeps its meaning if, in the initial value of a hoisted variable, it means no
hoisted variable, and elsewhere, if it has the name of one, it means one. -/
def KeepsMeaning (root : Expr) (s : Site) (name : String) : Prop :=
  if s.inHoisted then s.meansHoisted name = false
  else name ∈ root.outerStatics.map (·.name) → s.meansHoisted name = true

theorem givenName_eq_meantName_iff {root : Expr} {s : Site} {e : Expr} (hplace : Place root s e)
    (field name : String) :
    givenName field (root.outerStatics.map (·.name)) s name = meantName field s name ↔
      KeepsMeaning root s name := by
  have hne : field ++ "_" ++ name ≠ name := by
    intro heq
    have := congrArg String.length heq
    simp only [String.length_append] at this
    have : "_".length = 1 := rfl
    omega
  rw [givenName, meantName, KeepsMeaning, rename]
  by_cases hinit : s.inHoisted = true
  · simp [hinit, hne.symm]
  · by_cases hname : name ∈ root.outerStatics.map (·.name)
    · simp [hinit, hname, hne]
    · have hmeans : ¬s.meansHoisted name = true := fun h => hname (hplace.mem_of_meansHoisted h)
      simp [hinit, hname, hmeans]

/-! ## Split and renamed -/

section
variable {f g : Site → String → String}

theorem mapSites_onIdents_of_ne {s : Site} {kind : ExprKind} {pos : Position}
    (h : ∀ name, kind ≠ .const (.ident name)) :
    (⟨kind, pos⟩ : Expr).mapSites (onIdents f) s =
      ⟨kind.withChildren ((Expr.parts s ⟨kind, pos⟩).map fun p => p.2.mapSites (onIdents f) p.1),
        pos⟩ := by
  rw [Expr.mapSites_eq]
  exact onIdents_of_ne (ExprKind.withChildren_ne_ident h _)

theorem rename_of_mapSites_eq {root : Expr}
    (h : root.mapSites (onIdents f) .top = root.mapSites (onIdents g) .top) {s : Site}
    {name : String} {pos : Position} (hplace : Place root s (.ident name pos)) :
    f s name = g s name := by
  have htell : TellParts (onIdents f) (onIdents g) := by
    rintro s ⟨kind, pos⟩ es es' hlength hlength' heq
    obtain ⟨name, rfl⟩ | hne := kind.ident_or_ne
    · rw [List.length_eq_zero_iff.mp hlength, List.length_eq_zero_iff.mp hlength']
    · rw [onIdents_of_ne (ExprKind.withChildren_ne_ident hne es),
        onIdents_of_ne (ExprKind.withChildren_ne_ident hne es')] at heq
      exact ExprKind.withChildren_inj hlength hlength' (congrArg Expr.kind heq)
  have hident := congrArg Expr.ident? (hplace.mapSites_eq htell h)
  rw [Expr.mapSites_eq, Expr.mapSites_eq] at hident
  exact Option.some.inj hident

theorem isFunction_mapSites (s : Site) (e : Expr) :
    (e.mapSites (onIdents f) s).isFunction = e.isFunction := by
  obtain ⟨kind, pos⟩ := e
  obtain ⟨name, rfl⟩ | hne := kind.ident_or_ne
  · rw [Expr.mapSites_eq]
    rfl
  · rw [mapSites_onIdents_of_ne hne]
    exact ExprKind.of_withChildren (k := fun kind => Expr.isFunction ⟨kind, pos⟩)
      (fun g kind => by cases kind <;> rfl) (Expr.length_map_parts _ s ⟨kind, pos⟩)

theorem map_withInits_of_eq {α : Type} {k : Var → α} (hk : ∀ v init, k { v with init } = k v)
    (vs : List Var) (es : List Expr) : (withInits vs es).map k = vs.map k := by
  induction vs generalizing es with
  | nil => rfl
  | cons v vs ih =>
    obtain ⟨name, type, init, isFinal, isStatic, annotations⟩ := v
    cases init with
    | none => exact congrArg (_ :: ·) (ih es)
    | some e =>
      cases es with
      | nil => exact congrArg (_ :: ·) (ih [])
      | cons e' es => exact congrArg₂ List.cons (hk _ (some e')) (ih es)

theorem map_name_splitStatics (s : Site) (e : Expr) :
    (splitStatics (e.mapSites (onIdents f) s)).2.map (·.name) =
      (splitStatics e).2.map (·.name) := by
  induction e using Expr.induction_children generalizing s with
  | h e ih =>
    obtain hfunction | ⟨vs, pos, rfl⟩ | ⟨hnone, hfunction, hvars⟩ := takeStatics_cases e
    · rw [splitStatics_function hfunction,
        splitStatics_function ((isFunction_mapSites s e).trans hfunction)]
    · have hkeys (vs : List Var) : (vs.filter (·.isStatic)).map (·.name) =
          ((vs.map fun v => (v.name, v.isStatic)).filter (·.2)).map (·.1) := by
        rw [List.filter_map, List.map_map]
        rfl
      rw [mapSites_onIdents_of_ne (by simp), ExprKind.withChildren, splitStatics_vars,
        splitStatics_vars]
      dsimp only
      rw [hkeys, hkeys, map_withInits_of_eq fun _ _ => rfl]
    · obtain ⟨kind, pos⟩ := e
      obtain ⟨name, rfl⟩ | hne := kind.ident_or_ne
      · rw [Expr.mapSites_eq]
        rfl
      · have hchildren : kind.children = _ := (Expr.map_snd_parts s ⟨kind, pos⟩).symm
        rw [mapSites_onIdents_of_ne hne,
          splitStatics_withChildren (Expr.length_map_parts _ s ⟨kind, pos⟩) hnone,
          splitStatics_parts hnone, Expr.children, hchildren, List.flatMap_map, List.flatMap_map,
          List.map_flatMap, List.map_flatMap]
        exact List.flatMap_congr fun p hp => ih p.2 (Expr.mem_children_of_mem_parts hp) p.1

theorem eq_of_filter_eq {α : Type} {q : α → Bool} {as bs : List α} (hmap : as.map q = bs.map q)
    (hfilter : as.filter q = bs.filter q)
    (hothers : as.filter (fun a => !q a) = bs.filter fun a => !q a) : as = bs := by
  induction as generalizing bs with
  | nil => exact (List.map_eq_nil_iff.mp hmap.symm).symm
  | cons a as ih =>
    cases bs with
    | nil => cases hmap
    | cons b bs =>
      obtain ⟨hq, hrestmap⟩ := List.cons.inj hmap
      cases ha : q a with
      | true =>
        have hb : q b = true := hq ▸ ha
        rw [List.filter_cons_of_pos ha, List.filter_cons_of_pos hb] at hfilter
        rw [List.filter_cons_of_neg (by simp [ha]), List.filter_cons_of_neg (by simp [hb])]
          at hothers
        obtain ⟨rfl, hrest⟩ := List.cons.inj hfilter
        rw [ih hrestmap hrest hothers]
      | false =>
        have hb : q b = false := hq ▸ ha
        rw [List.filter_cons_of_neg (by simp [ha]), List.filter_cons_of_neg (by simp [hb])]
          at hfilter
        rw [List.filter_cons_of_pos (by simp [ha]), List.filter_cons_of_pos (by simp [hb])]
          at hothers
        obtain ⟨rfl, hrest⟩ := List.cons.inj hothers
        rw [ih hrestmap hfilter hrest]

theorem locals_inj {pos : Position} {vs vs' : List Var}
    (h : (match vs with
        | [] => ⟨.block [], pos⟩
        | locals => ⟨.vars locals, pos⟩ : Expr) =
      match vs' with
        | [] => ⟨.block [], pos⟩
        | locals => ⟨.vars locals, pos⟩) : vs = vs' := by
  cases vs <;> cases vs' <;> cases h <;> rfl

theorem eq_of_flatMap_eq {α β : Type} {k l : α → List β} {as : List α}
    (hlength : ∀ a ∈ as, (k a).length = (l a).length) (h : as.flatMap k = as.flatMap l) :
    ∀ a ∈ as, k a = l a := by
  induction as with
  | nil => exact fun a ha => nomatch ha
  | cons a as ih =>
    obtain ⟨hhead, htail⟩ := List.forall_mem_cons.mp hlength
    obtain ⟨heq, hrest⟩ := List.append_inj h hhead
    exact List.forall_mem_cons.mpr ⟨heq, ih htail hrest⟩

/-- Two renamings of an expression from which the same is taken, and the same is left, are equal. -/
theorem mapSites_eq_of_splitStatics_eq {s : Site} {e : Expr}
    (h : splitStatics (e.mapSites (onIdents f) s) = splitStatics (e.mapSites (onIdents g) s)) :
    e.mapSites (onIdents f) s = e.mapSites (onIdents g) s := by
  induction e using Expr.induction_children generalizing s with
  | h e ih =>
    obtain hfunction | ⟨vs, pos, rfl⟩ | ⟨hnone, hfunction, hvars⟩ := takeStatics_cases e
    · rw [splitStatics_function ((isFunction_mapSites s e).trans hfunction),
        splitStatics_function ((isFunction_mapSites s e).trans hfunction)] at h
      exact congrArg Prod.fst h
    · rw [mapSites_onIdents_of_ne (by simp), mapSites_onIdents_of_ne (by simp)] at h ⊢
      rw [ExprKind.withChildren, ExprKind.withChildren, splitStatics_vars, splitStatics_vars] at h
      obtain ⟨hlocals, hstatics⟩ := Prod.mk.inj h
      have hstatic (es : List Expr) : (withInits vs es).map (·.isStatic) = vs.map (·.isStatic) :=
        map_withInits_of_eq (fun _ _ => rfl) vs es
      exact congrArg (fun vs => Expr.mk (.vars vs) pos) (eq_of_filter_eq
        ((hstatic _).trans (hstatic _).symm) hstatics (locals_inj hlocals))
    · obtain ⟨kind, pos⟩ := e
      obtain ⟨name, rfl⟩ | hne := kind.ident_or_ne
      · rw [Expr.mapSites_eq, Expr.mapSites_eq] at h ⊢
        exact congrArg Prod.fst h
      · rw [mapSites_onIdents_of_ne hne, mapSites_onIdents_of_ne hne] at h ⊢
        rw [splitStatics_withChildren (Expr.length_map_parts _ s ⟨kind, pos⟩) hnone,
          splitStatics_withChildren (Expr.length_map_parts _ s ⟨kind, pos⟩) hnone] at h
        obtain ⟨hleft, htaken⟩ := Prod.mk.inj h
        rw [List.map_map, List.map_map] at hleft
        have hleft := ExprKind.withChildren_inj (Expr.length_map_parts _ s ⟨kind, pos⟩)
          (Expr.length_map_parts _ s ⟨kind, pos⟩) (congrArg Expr.kind hleft)
        rw [List.flatMap_map, List.flatMap_map] at htaken
        have hlength (p : Site × Expr) :
            (splitStatics (p.2.mapSites (onIdents f) p.1)).2.length =
              (splitStatics (p.2.mapSites (onIdents g) p.1)).2.length := by
          rw [← List.length_map (·.name), map_name_splitStatics, ← map_name_splitStatics (f := g),
            List.length_map]
        -- From each part as many variables are taken, whatever their identifiers are called.
        have htaken := eq_of_flatMap_eq (fun p _ => hlength p) htaken
        have hparts : (Expr.parts s ⟨kind, pos⟩).map (fun p => p.2.mapSites (onIdents f) p.1) =
            (Expr.parts s ⟨kind, pos⟩).map fun p => p.2.mapSites (onIdents g) p.1 :=
          List.map_congr_left fun p hp => ih p.2 (Expr.mem_children_of_mem_parts hp)
            (Prod.ext (List.map_inj_left.mp hleft p hp) (htaken p hp))
        rw [hparts]

end

end Hoisting

/-- A body with its variables hoisted is what it would be if every identifier that means a hoisted
variable, and no other, took its new name, if and only if all identifiers in it keep their
meaning. -/
theorem localStatic_keeps_meaning_iff {c d : ClassDef} {count : Nat}
    (h : localStatic c = (d, .ok count)) :
    d = hoist c ∧ ∀ b ∈ c.bodyExprs,
      ((Hoisting.hoistBody b.1 b.2, b.2.outerStatics) =
          splitStatics (b.2.mapSites (onIdents (Hoisting.meantName b.1)) .top) ↔
        ∀ s name pos, Place b.2 s (.ident name pos) → Hoisting.KeepsMeaning b.2 s name) := by
  refine ⟨(localStatic_ok h).1, fun b _ => ?_⟩
  have hgiven : splitStatics (b.2.mapSites (onIdents
      (Hoisting.givenName b.1 (b.2.outerStatics.map (·.name)))) .top) =
        (Hoisting.hoistBody b.1 b.2, b.2.outerStatics) := by
    rw [Hoisting.splitStatics_mapSites _ _ rfl, snd_splitStatics, Hoisting.hoistBody]
  rw [← hgiven]
  constructor
  · intro heq s name pos hplace
    exact (Hoisting.givenName_eq_meantName_iff hplace b.1 name).mp
      (Hoisting.rename_of_mapSites_eq (Hoisting.mapSites_eq_of_splitStatics_eq heq) hplace)
  · intro hkeeps
    refine congrArg splitStatics (Expr.mapSites_congr (fun s e es hplace => ?_) .root)
    obtain ⟨kind, pos⟩ := e
    obtain ⟨name, rfl⟩ | hne := kind.ident_or_ne
    · exact congrArg (Expr.ident · pos)
        ((Hoisting.givenName_eq_meantName_iff hplace b.1 name).mpr (hkeeps s name pos hplace))
    · rw [Hoisting.onIdents_of_ne (ExprKind.withChildren_ne_ident hne es),
        Hoisting.onIdents_of_ne (ExprKind.withChildren_ne_ident hne es)]

theorem places_countingBody :
    let outer : Site := ⟨[("n", .local true [])], [], false⟩
    countingBody.places .top = [(.top, countingBody), (.top, declare true "n" (.int "0" .null)),
      (Site.top.within (.init true), .int "0" .null), (outer, .ident "n" .null)] := by
  intro outer
  have hbody : countingBody.places .top = (.top, countingBody) ::
      ((declare true "n" (.int "0" .null)).places .top ++
        ((Expr.ident "n" .null).places outer ++ [])) := Expr.places_eq _ _
  have hdeclaration : (declare true "n" (.int "0" .null)).places .top =
      (.top, declare true "n" (.int "0" .null)) ::
        ((Expr.int "0" .null).places (Site.top.within (.init true)) ++ []) := Expr.places_eq _ _
  have hinit : (Expr.int "0" .null).places (Site.top.within (.init true)) =
      [(Site.top.within (.init true), .int "0" .null)] := Expr.places_eq _ _
  have hident : (Expr.ident "n" .null).places outer = [(outer, .ident "n" .null)] :=
    Expr.places_eq _ _
  rw [hbody, hdeclaration, hinit, hident]
  rfl

theorem localStatic_keeps_meaning_counting :
    ∃ d, localStatic (withRun countingBody) = (d, .ok 1) ∧
      (Hoisting.hoistBody "run" countingBody, countingBody.outerStatics) =
        splitStatics (countingBody.mapSites (onIdents (Hoisting.meantName "run")) .top) := by
  have hrun : localStatic (withRun countingBody) =
      ((localStatic (withRun countingBody)).1, .ok 1) := Prod.ext rfl rfl
  refine ⟨_, hrun, ((localStatic_keeps_meaning_iff hrun).2 ("run", countingBody) (.head _)).mpr ?_⟩
  intro s name pos hplace
  rw [place_iff_mem_places, places_countingBody] at hplace
  obtain ⟨rfl, rfl, -⟩ : s = ⟨[("n", .local true [])], [], false⟩ ∧ name = "n" ∧ pos = .null := by
    simpa [countingBody, declare, Expr.ident, Expr.int] using hplace
  exact fun _ => rfl

def echo (pos : Position) : Expr :=
  let body : Expr := ⟨.ret (some (.ident "n" pos)), .null⟩
  ⟨.function .anonymous ⟨[⟨"n", false, none, none, []⟩], none, some body, []⟩, .null⟩

/-- `{ static var n = 0; var f = function(n) return n; n; }` -/
def shadowedBody (pos : Position) : Expr :=
  ⟨.block [declare true "n" (.int "0" .null), declare false "f" (echo pos),
    .ident "n" .null], .null⟩

/-- `{ static var n = 0; static var m = n; m; }` -/
def chainedBody (pos : Position) : Expr :=
  ⟨.block [declare true "n" (.int "0" .null), declare true "m" (.ident "n" pos),
    .ident "m" .null], .null⟩

/-- A parameter takes the name of a hoisted variable, and a hoisted variable keeps its old name in
the initial value of another one. -/
theorem localStatic_changes_meaning :
    let pos : Position := ⟨0, 1, 2⟩
    (∃ s, Place (shadowedBody pos) s (.ident "n" pos) ∧ s.binder? "n" = some .param ∧
      ∃ b ∈ (localStatic (withRun (shadowedBody pos))).1.bodyExprs,
        .ident "run_n" pos ∈ b.2.nodes) ∧
    ∃ s, Place (chainedBody pos) s (.ident "n" pos) ∧ s.meansHoisted "n" = true ∧
      ("run_m", .ident "n" pos) ∈ (localStatic (withRun (chainedBody pos))).1.bodyExprs := by
  refine ⟨⟨_, .part (.part (.part (.part .root (.tail _ (.head _))) (.head _)) (.head _)) (.head _),
    rfl, _, .head _, List.mem_of_getElem? (i := 5) rfl⟩,
    _, .part (.part .root (.tail _ (.head _))) (.head _), rfl, ?_⟩
  exact List.mem_of_getElem? (i := 2) rfl

end Filter

end HaxeMacro
