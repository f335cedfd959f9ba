import HaxeMacro.Filter.LocalStatic
import HaxeMacro.Proofs.Filter.BodyVisits
import HaxeMacro.Proofs.Fragment.Variables
import Mathlib.Data.List.Perm.Basic

/-! # Hoisted variables

A static variable is hoisted if it is declared outside function literals and outside the initial
values of other variables. What stands in such a value stays there, and goes with it.
-/

namespace HaxeMacro

theorem Entries.get?_map_key {κ α : Type} [DecidableEq κ] (f : κ → α) (keys : List κ) (key : κ) :
    get? (keys.map fun key => (key, f key)) key = if key ∈ keys then some (f key) else none := by
  induction keys with
  | nil => rfl
  | cons first keys ih =>
    rw [List.map_cons, get?]
    by_cases h : first = key
    · simp [h]
    · simp [h, Ne.symm h, ih]

/-! ## Split bodies -/

namespace Filter

open Expr
open scoped List

/-- Function literals and declarations of variables are taken as they are. -/
theorem takeStatics_cases (e : Expr) :
    e.isFunction = true ∨ (∃ vs pos, e = ⟨.vars vs, pos⟩) ∨
      takeStatics e = none ∧ e.isFunction = false ∧ e.vars = [] := by
  obtain ⟨kind, pos⟩ := e
  cases kind with
  | function => exact .inl rfl
  | vars vs => exact .inr (.inl ⟨vs, pos, rfl⟩)
  | _ => exact .inr (.inr ⟨rfl, rfl, rfl⟩)

theorem run_takeStatics_function {e : Expr} (h : e.isFunction = true) (taken : List Var) :
    (e.mapOutermost takeStatics).run taken = (e, taken) := by
  obtain ⟨kind, pos⟩ := e
  cases kind <;> first | rfl | cases h

theorem run_takeStatics_vars (vs : List Var) (pos : Position) (taken : List Var) :
    (Expr.mapOutermost takeStatics ⟨.vars vs, pos⟩).run taken =
      (match vs.filter (fun v => !v.isStatic) with
        | [] => ⟨.block [], pos⟩
        | locals => ⟨.vars locals, pos⟩,
      taken ++ vs.filter (·.isStatic)) := by
  rw [mapOutermost, transform, takeStatics]
  cases vs.filter (fun v => !v.isStatic) <;> rfl

theorem run_takeStatics (e : Expr) (taken : List Var) :
    (e.mapOutermost takeStatics).run taken =
      ((splitStatics e).1, taken ++ (splitStatics e).2) := by
  induction e using Expr.induction_children generalizing taken with
  | h e ih =>
    obtain hfunction | ⟨vs, pos, rfl⟩ | ⟨hnone, -⟩ := takeStatics_cases e
    · simp [splitStatics, run_takeStatics_function hfunction]
    · simp [splitStatics, run_takeStatics_vars]
    · have hrun (taken : List Var) : (e.mapOutermost takeStatics).run taken =
          ({ e with kind := e.kind.mapChildren fun child => (splitStatics child).1 },
            taken ++ e.children.flatMap fun child => (splitStatics child).2) := by
        rw [List.flatMap_def, ← List.foldl_append_eq_append]
        exact Goes.expr hnone (fun child hchild taken => ih child hchild taken) taken
      rw [hrun, splitStatics, hrun, List.nil_append]

theorem splitStatics_parts {e : Expr} (h : takeStatics e = none) :
    splitStatics e =
      ({ e with kind := e.kind.mapChildren fun child => (splitStatics child).1 },
        e.children.flatMap fun child => (splitStatics child).2) := by
  rw [List.flatMap_eq_foldl]
  exact Goes.expr h (fun child _ taken => run_takeStatics child taken) []

theorem splitStatics_function {e : Expr} (h : e.isFunction = true) : splitStatics e = (e, []) :=
  run_takeStatics_function h []

theorem splitStatics_vars (vs : List Var) (pos : Position) :
    splitStatics ⟨.vars vs, pos⟩ =
      (match vs.filter (fun v => !v.isStatic) with
        | [] => ⟨.block [], pos⟩
        | locals => ⟨.vars locals, pos⟩,
      vs.filter (·.isStatic)) :=
  run_takeStatics_vars vs pos []

/-- The static variables declared outside initial values are the ones that are taken out. -/
theorem snd_splitStatics (e : Expr) : (splitStatics e).2 = e.outerStatics := by
  induction e using Expr.induction_children with
  | h e ih =>
    obtain hfunction | ⟨vs, pos, rfl⟩ | ⟨hnone, hfunction, hvars⟩ := takeStatics_cases e
    · rw [splitStatics_function hfunction, outerStatics, outerVars_of_isFunction hfunction]
      rfl
    · rw [splitStatics_vars, outerStatics, outerVars_vars]
    · rw [splitStatics_parts hnone, outerStatics, outerVars_parts hfunction hvars,
        List.filter_flatMap]
      exact List.flatMap_congr ih

theorem localStatics_fst_splitStatics (e : Expr) :
    (splitStatics e).1.localStatics =
      (e.outerVars.filter fun v => !v.isStatic).flatMap fun v =>
        v.init.toList.flatMap localStatics := by
  induction e using Expr.induction_children with
  | h e ih =>
    obtain hfunction | ⟨vs, pos, rfl⟩ | ⟨hnone, hfunction, hvars⟩ := takeStatics_cases e
    · rw [splitStatics_function hfunction, localStatics, localVars_of_isFunction hfunction,
        outerVars_of_isFunction hfunction]
      rfl
    · rw [splitStatics_vars, outerVars_vars]
      generalize hlocals : vs.filter (fun v => !v.isStatic) = locals
      have hstatics : locals.filter (·.isStatic) = [] := by
        simp [← hlocals, List.filter_filter]
      cases locals with
      | nil => rfl
      | cons v vs =>
        dsimp only
        rw [localStatics, localVars_vars, List.filter_append, hstatics, List.nil_append,
          List.filter_flatMap, List.filterMap_eq_flatMap_toList, List.flatMap_assoc]
        rfl
    · have hparts := splitStatics_parts hnone
      rw [hparts, outerVars_parts hfunction hvars, List.filter_flatMap, List.flatMap_assoc,
        localStatics, localVars_parts (isFunction_mapChildren _ e |>.trans hfunction),
        children, ExprKind.children_mapChildren, List.flatMap_map, List.filter_flatMap]
      · exact List.flatMap_congr ih
      · rw [vars_mapChildren, hvars]
        rfl

/-! ## New statics -/

namespace Hoisting

def members (field : String) (e : Expr) : List Member :=
  e.outerStatics.map fun v => member (field ++ "_" ++ v.name) v e.pos

/-- The new name of an identifier, where the variables with these names were hoisted. -/
def rename (field : String) (names : List String) (name : String) : String :=
  if name ∈ names then field ++ "_" ++ name else name

def hoistBody (field : String) (e : Expr) : Expr :=
  (splitStatics e).1.renameIdents (rename field (e.outerStatics.map (·.name)))

/-- From `h` to `h'` the statics `ms` were added, and nothing failed. -/
structure Grown (ms : List Member) (h h' : Hoisting) : Prop where
  taken : h'.taken = (ms.map (·.name)).reverse ++ h.taken
  hoisted : h'.hoisted = h.hoisted ++ ms
  failure : h.failure = none
  distinct : (ms.map (·.name)).Nodup
  fresh : ∀ m ∈ ms, m.name ∉ h.taken

namespace Grown

variable {ms ms' : List Member} {h h' h'' : Hoisting}

theorem refl (hfailure : h.failure = none) : Grown [] h h :=
  ⟨rfl, (List.append_nil _).symm, hfailure, .nil, fun _ hm => nomatch hm⟩

theorem trans (hgrown : Grown ms h h') (hgrown' : Grown ms' h' h'') :
    Grown (ms ++ ms') h h'' where
  taken := by
    rw [hgrown'.taken, hgrown.taken, List.map_append, List.reverse_append, List.append_assoc]
  hoisted := by rw [hgrown'.hoisted, hgrown.hoisted, List.append_assoc]
  failure := hgrown.failure
  distinct := by
    rw [List.map_append, List.nodup_append]
    refine ⟨hgrown.distinct, hgrown'.distinct, fun name hname name' hname' heq => ?_⟩
    obtain ⟨m, hm, rfl⟩ := List.mem_map.mp hname'
    refine hgrown'.fresh m hm ?_
    rw [hgrown.taken, ← heq]
    exact List.mem_append_left _ (List.mem_reverse.mpr hname)
  fresh := by
    intro m hm htaken
    rcases List.mem_append.mp hm with hm | hm
    · exact hgrown.fresh m hm htaken
    · exact hgrown'.fresh m hm (hgrown.taken ▸ List.mem_append_right _ htaken)

end Grown

theorem add_ok {field : String} {pos : Position} {h : Hoisting} {vs : List Var}
    (hok : (h.add field pos vs).1.failure = none) :
    Grown (vs.map fun v => member (field ++ "_" ++ v.name) v pos) h (h.add field pos vs).1 ∧
      (h.add field pos vs).2 = vs.map fun v => (v.name, field ++ "_" ++ v.name) := by
  induction vs generalizing h with
  | nil => exact ⟨.refl hok, rfl⟩
  | cons v vs ih =>
    rw [add] at hok ⊢
    dsimp only at hok ⊢
    split at hok
    · cases hok
    · rename_i hfresh
      rw [if_neg hfresh]
      obtain ⟨hgrown, hrenames⟩ := ih hok
      have hfirst : Grown [member (field ++ "_" ++ v.name) v pos] h
          { h with
            taken := (field ++ "_" ++ v.name) :: h.taken
            hoisted := h.hoisted ++ [member (field ++ "_" ++ v.name) v pos] } :=
        ⟨rfl, rfl, hgrown.failure, List.pairwise_singleton _ _,
          fun m hm => List.mem_singleton.mp hm ▸ hfresh⟩
      exact ⟨hfirst.trans hgrown, congrArg _ hrenames⟩

theorem getD_get?_renames (field name : String) (names : List String) :
    (Entries.get? (names.map fun name => (name, field ++ "_" ++ name)).reverse name).getD name =
      rename field names name := by
  rw [← List.map_reverse, Entries.get?_map_key, rename]
  by_cases h : name ∈ names <;> simp [h]

/-- The visit comes by these bodies and answers `a`, unless it fails. -/
def Hoists {α : Type} (action : StateM Hoisting α) (bodies : List (String × Expr)) (a : α) : Prop :=
  ∀ h, (action.run h).2.failure = none →
    (action.run h).1 = a ∧ Grown (bodies.flatMap fun b => members b.1 b.2) h (action.run h).2

theorem hoists_pure {α : Type} (a : α) : Hoists (pure a) [] a := fun _ hok => ⟨rfl, .refl hok⟩

theorem hoists_bind {α β : Type} {action : StateM Hoisting α} {k : α → StateM Hoisting β}
    {bodies bodies' : List (String × Expr)} {a : α} {g : α → β} (haction : Hoists action bodies a)
    (hk : ∀ a, Hoists (k a) bodies' (g a)) : Hoists (action >>= k) (bodies ++ bodies') (g a) := by
  intro h hok
  obtain ⟨first, h', hrun⟩ : ∃ first h', action.run h = (first, h') := ⟨_, _, rfl⟩
  have hbind : (action >>= k).run h = (k first).run h' := by
    rw [StateT.run_bind, hrun]
    rfl
  rw [hbind] at hok ⊢
  obtain ⟨hanswer, hgrown'⟩ := hk first h' hok
  have hfirst := haction h
  rw [hrun] at hfirst
  obtain ⟨rfl, hgrown⟩ := hfirst hgrown'.failure
  rw [List.flatMap_append]
  exact ⟨hanswer, hgrown.trans hgrown'⟩

theorem run_body_of_failed (field : String) (e : Expr) {h : Hoisting} {failure : FilterError}
    (hfailure : h.failure = some failure) : (body field e).run h = (e, h) := by
  unfold body
  simp only [StateT.run_bind, StateT.run_get, pure_bind, hfailure]
  rfl

theorem run_body (field : String) (e : Expr) {h : Hoisting} (hfailure : h.failure = none) :
    (body field e).run h =
      let added := h.add field e.pos e.outerStatics
      (if added.1.failure.isSome || added.2.isEmpty then (splitStatics e).1
        else (splitStatics e).1.renameIdents fun name =>
          (Entries.get? added.2.reverse name).getD name, added.1) := by
  unfold body
  simp only [StateT.run_bind, StateT.run_get, pure_bind, hfailure]
  rw [snd_splitStatics]
  generalize h.add field e.pos e.outerStatics = added
  rw [if_neg (by simp)]
  cases added.1.failure.isSome || List.isEmpty added.2 <;> rfl

theorem hoists_body (field : String) (e : Expr) :
    Hoists (body field e) [(field, e)] (hoistBody field e) := by
  intro h hok
  cases hfailure : h.failure with
  | some failure =>
    rw [run_body_of_failed field e hfailure, hfailure] at hok
    cases hok
  | none =>
    rw [run_body field e hfailure] at hok ⊢
    obtain ⟨hgrown, hrenames⟩ := add_ok hok
    refine ⟨?_, by rwa [List.flatMap_singleton]⟩
    change (if _ then _ else _) = _
    rw [hok, hrenames, hoistBody]
    generalize e.outerStatics = vs
    cases vs with
    | nil => exact (renameIdents_id _).symm
    | cons v vs =>
      rw [if_neg (by simp)]
      refine congrArg (renameIdents · _) (funext fun name => ?_)
      rw [← getD_get?_renames, List.map_map]
      rfl

end Hoisting

def hoisted (c : ClassDef) : List Member := c.bodyExprs.flatMap fun b => Hoisting.members b.1 b.2

def hoist (c : ClassDef) : ClassDef :=
  let d := c.mapBodies Hoisting.hoistBody
  { d with statics := d.statics ++ hoisted c }

theorem localStatic_ok {c d : ClassDef} {count : Nat} (h : localStatic c = (d, .ok count)) :
    d = hoist c ∧ count = (hoisted c).length ∧ ((hoisted c).map (·.name)).Nodup ∧
      ∀ m ∈ hoisted c, m.name ∉ c.statics.map (·.name) ++ c.fields.map (·.name) := by
  have hvisit := ClassDef.rel_visitBodies Hoisting.hoists_pure Hoisting.hoists_bind
    Hoisting.hoists_body c ⟨c.statics.map (·.name) ++ c.fields.map (·.name), [], none⟩
  unfold localStatic at h
  dsimp only at h
  generalize (c.visitBodies Hoisting.body).run _ = visited at h hvisit
  obtain ⟨e, visit⟩ := visited
  dsimp only at h
  cases hok : visit.failure with
  | some failure =>
    rw [hok] at h
    cases h
  | none =>
    obtain ⟨rfl, hgrown⟩ := hvisit hok
    rw [hok, hgrown.hoisted] at h
    cases h
    exact ⟨rfl, rfl, hgrown.distinct, hgrown.fresh⟩

/-! ## What is left -/

def staticNames (e : Expr) : List String := e.localStatics.map (·.name)

def initNames (vs : List Var) : List String := vs.flatMap fun v => v.init.toList.flatMap staticNames

theorem map_initStatics (e : Expr) : e.initStatics.map (·.name) = initNames e.outerVars := by
  rw [Expr.initStatics, List.filterMap_eq_flatMap_toList, List.flatMap_assoc, List.map_flatMap]
  refine List.flatMap_congr fun v _ => ?_
  rw [List.map_flatMap]
  rfl

theorem staticNames_hoistBody (field : String) (e : Expr) :
    staticNames (Hoisting.hoistBody field e) =
      initNames (e.outerVars.filter fun v => !v.isStatic) := by
  rw [staticNames, Hoisting.hoistBody, localStatics, localVars_renameIdents, List.filter_map,
    List.map_map]
  change (splitStatics e).1.localStatics.map (·.name) = _
  rw [localStatics_fst_splitStatics]
  simp only [List.map_flatMap]
  rfl

theorem staticNames_members (field : String) (e : Expr) :
    ((Hoisting.members field e).flatMap Member.bodyExprs).flatMap (fun b => staticNames b.2) =
      initNames e.outerStatics := by
  rw [Hoisting.members, List.flatMap_map, List.flatMap_assoc]
  refine List.flatMap_congr fun v _ => ?_
  unfold Hoisting.member Member.bodyExprs
  cases v.init <;> rfl

theorem staticNames_hoisted (field : String) (e : Expr) :
    staticNames (Hoisting.hoistBody field e) ++
      ((Hoisting.members field e).flatMap Member.bodyExprs).flatMap (fun b => staticNames b.2) ~
    e.initStatics.map (·.name) := by
  rw [staticNames_hoistBody, staticNames_members, map_initStatics, initNames, initNames,
    ← List.flatMap_append]
  exact (List.perm_append_comm.trans (List.filter_append_perm _ _)).flatMap_right _

theorem bodyExprs_hoist (c : ClassDef) :
    (hoist c).bodyExprs ~
      c.bodyExprs.map (fun b => (b.1, Hoisting.hoistBody b.1 b.2)) ++
        c.bodyExprs.flatMap fun b => (Hoisting.members b.1 b.2).flatMap Member.bodyExprs := by
  rw [← ClassDef.bodyExprs_mapBodies, ← List.flatMap_assoc, ← hoisted]
  simp only [hoist, ClassDef.bodyExprs, ClassDef.members, List.flatMap_append, List.append_assoc]
  refine .append_left _ (.append_left _ ?_)
  rw [← List.append_assoc _ _ ((hoisted c).flatMap _)]
  exact List.perm_append_comm

/-- The variables that are left as static in the bodies and in the new statics are those that were
declared in initial values. -/
theorem staticNames_hoist (c : ClassDef) :
    ((hoist c).bodyExprs.flatMap fun b => staticNames b.2) ~
      c.bodyExprs.flatMap fun b => b.2.initStatics.map (·.name) := by
  refine ((bodyExprs_hoist c).flatMap_right _).trans ?_
  rw [List.flatMap_append, List.flatMap_map, List.flatMap_assoc]
  refine (List.flatMap_append_perm c.bodyExprs _ _).trans ?_
  exact List.Perm.flatMap_left _ fun b _ => staticNames_hoisted b.1 b.2

/-- Of the static variables outside function literals, exactly those become class statics that are
declared outside the initial values of other variables, each of them with its own initial value. The
others are left. -/
theorem localStatic_leaves_none_iff {c d : ClassDef} {count : Nat}
    (h : localStatic c = (d, .ok count)) :
    d = hoist c ∧ count = (hoisted c).length ∧
    ((hoisted c).map (·.name)).Nodup ∧
    (∀ m ∈ hoisted c, m.name ∉ c.statics.map (·.name) ++ c.fields.map (·.name)) ∧
    (d.bodyExprs.flatMap fun b => staticNames b.2).Perm
      (c.bodyExprs.flatMap fun b => b.2.initStatics.map (·.name)) ∧
    ((∀ b ∈ d.bodyExprs, b.2.localStatics = []) ↔
      ∀ b ∈ c.bodyExprs, b.2.initStatics = []) := by
  obtain ⟨rfl, hcount, hdistinct, hfresh⟩ := localStatic_ok h
  have hleft := staticNames_hoist c
  refine ⟨rfl, hcount, hdistinct, hfresh, hleft, ?_⟩
  have hnil {names names' : List String} (h : names ~ names') : names = [] ↔ names' = [] := by
    rw [← List.length_eq_zero_iff, h.length_eq, List.length_eq_zero_iff]
  simpa only [List.flatMap_eq_nil_iff, staticNames, List.map_eq_nil_iff] using hnil hleft

def countingBody : Expr :=
  ⟨.block [declare true "n" (.int "0" .null), .ident "n" .null], .null⟩

theorem localStatic_leaves_none_counting :
    ∃ d, localStatic (withRun countingBody) = (d, .ok 1) ∧
      ∀ b ∈ d.bodyExprs, b.2.localStatics = [] := by
  have hrun : localStatic (withRun countingBody) =
      ((localStatic (withRun countingBody)).1, .ok 1) := Prod.ext rfl rfl
  refine ⟨_, hrun, (localStatic_leaves_none_iff hrun).2.2.2.2.2.mpr fun b hb => ?_⟩
  obtain rfl := List.mem_singleton.mp hb
  rfl

/-- `{ var x = { static var y = 1; y; }; x; }` -/
def nestedBody : Expr :=
  let init : Expr := ⟨.block [declare true "y" (.int "1" .null), .ident "y" .null], .null⟩
  ⟨.block [declare false "x" init, .ident "x" .null], .null⟩

/-- A static variable that is declared in an initial value stays where it is. -/
theorem localStatic_leaves_nested :
    localStatic (withRun nestedBody) = (withRun nestedBody, .ok 0) ∧
      ∃ b ∈ (withRun nestedBody).bodyExprs, b.2.localStatics ≠ [] :=
  ⟨rfl, ("run", nestedBody), .head _, List.cons_ne_nil _ _⟩

end Filter

end HaxeMacro
