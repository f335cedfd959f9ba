import HaxeMacro.Proofs.Filter.Hoisting

/-! # Names of hoisted variables

The new name of a static variable is made of two names, and not all pairs of names make different
ones: `c` in the field `a_b` and `b_c` in the field `a` both become `a_b_c`. Hoisting stops at the
first variable whose new name is taken, so no two names coincide where it succeeds.
-/

namespace HaxeMacro

namespace Filter

structure StaticLocal where
  field : String
  pos : Position
  var : Var

namespace StaticLocal

def name (l : StaticLocal) : String := l.field ++ "_" ++ l.var.name

def conflict (l : StaticLocal) : FilterError := Hoisting.conflict l.field l.name l.var l.pos

end StaticLocal

def staticLocals (bodies : List (String × Expr)) : List StaticLocal :=
  bodies.flatMap fun b => b.2.outerStatics.map (⟨b.1, b.2.pos, ·⟩)

theorem map_name_staticLocals (bodies : List (String × Expr)) :
    (bodies.flatMap fun b => Hoisting.members b.1 b.2).map (·.name) =
      (staticLocals bodies).map (·.name) := by
  simp only [staticLocals, Hoisting.members, List.map_flatMap, List.map_map]
  rfl

/-! ## Clashes -/

/-- Two of the names coincide, or one of them is taken. -/
def Clashes (taken names : List String) : Prop := ¬ names.Nodup ∨ ∃ name ∈ names, name ∈ taken

/-- The variable is the first one with a new name that is taken or was given before. -/
def FirstClash (taken : List String) (locals : List StaticLocal) (l : StaticLocal) : Prop :=
  ∃ before after, locals = before ++ l :: after ∧
    l.name ∈ taken ++ before.map (·.name) ∧ ¬ Clashes taken (before.map (·.name))

theorem not_clashes_nil (taken : List String) : ¬ Clashes taken [] := by
  simp [Clashes]

section
variable {taken : List String} {locals locals' : List StaticLocal} {l : StaticLocal}

theorem FirstClash.clashes (h : FirstClash taken locals l) :
    Clashes taken (locals.map (·.name)) := by
  obtain ⟨before, after, rfl, hname, -⟩ := h
  rcases List.mem_append.mp hname with htaken | hbefore
  · exact .inr ⟨l.name, by simp, htaken⟩
  · refine .inl fun hnodup => ?_
    rw [List.map_append, List.map_cons, List.nodup_append] at hnodup
    exact hnodup.2.2 _ hbefore _ List.mem_cons_self rfl

theorem FirstClash.append_right (h : FirstClash taken locals l) :
    FirstClash taken (locals ++ locals') l := by
  obtain ⟨before, after, rfl, hname, hbefore⟩ := h
  exact ⟨before, after ++ locals', by simp, hname, hbefore⟩

theorem FirstClash.append_left (hlocals : ¬ Clashes taken (locals.map (·.name)))
    (h : FirstClash ((locals.map (·.name)).reverse ++ taken) locals' l) :
    FirstClash taken (locals ++ locals') l := by
  obtain ⟨before, after, rfl, hname, hbefore⟩ := h
  refine ⟨locals ++ before, after, by simp, ?_, ?_⟩
  · simp only [List.mem_append, List.mem_reverse, List.map_append] at hname ⊢
    tauto
  · simp only [Clashes, not_or, not_not, List.map_append, List.nodup_append] at *
    grind

end

namespace Hoisting

variable {h h' : Hoisting} {e : FilterError}

theorem Grown.not_clashes {ms : List Member} (hgrown : Grown ms h h') :
    ¬ Clashes h.taken (ms.map (·.name)) := by
  rintro (hnodup | ⟨name, hname, htaken⟩)
  · exact hnodup hgrown.distinct
  · obtain ⟨m, hm, rfl⟩ := List.mem_map.mp hname
    exact hgrown.fresh m hm htaken

theorem add_error {field : String} {pos : Position} {vs : List Var} (hfailure : h.failure = none)
    (herror : (h.add field pos vs).1.failure = some e) :
    ∃ l, FirstClash h.taken (vs.map (⟨field, pos, ·⟩)) l ∧ e = l.conflict := by
  induction vs generalizing h with
  | nil => simp [add, hfailure] at herror
  | cons v vs ih =>
    rw [add] at herror
    dsimp only at herror
    split at herror
    · rename_i htaken
      refine ⟨⟨field, pos, v⟩, ⟨[], _, rfl, List.mem_append_left _ htaken, not_clashes_nil _⟩, ?_⟩
      exact (Option.some.inj herror).symm
    · rename_i hfresh
      obtain ⟨l, hclash, rfl⟩ := ih (by exact hfailure) herror
      have hfirst : ¬ Clashes h.taken ([StaticLocal.mk field pos v].map (·.name)) := by
        rintro (hnodup | ⟨name, hname, htaken⟩)
        · simp at hnodup
        · obtain rfl := List.mem_singleton.mp hname
          exact hfresh htaken
      exact ⟨l, FirstClash.append_left hfirst hclash, rfl⟩

/-- The visit comes by these bodies, and fails at the first clash if there is one. -/
def Reports {α : Type} (action : StateM Hoisting α) (bodies : List (String × Expr)) (a : α) :
    Prop :=
  Hoists action bodies a ∧ ∀ h e, (action.run h).2.failure = some e →
    h.failure = some e ∨
      h.failure = none ∧ ∃ l, FirstClash h.taken (staticLocals bodies) l ∧ e = l.conflict

theorem reports_pure {α : Type} (a : α) : Reports (pure a) [] a :=
  ⟨hoists_pure a, fun _ _ h => .inl h⟩

theorem reports_bind {α β : Type} {action : StateM Hoisting α} {k : α → StateM Hoisting β}
    {bodies bodies' : List (String × Expr)} {a : α} {g : α → β}
    (haction : Reports action bodies a) (hk : ∀ a, Reports (k a) bodies' (g a)) :
    Reports (action >>= k) (bodies ++ bodies') (g a) := by
  refine ⟨hoists_bind haction.1 fun a => (hk a).1, fun h e herror => ?_⟩
  obtain ⟨first, h', hrun⟩ : ∃ first h', action.run h = (first, h') := ⟨_, _, rfl⟩
  have hbind : (action >>= k).run h = (k first).run h' := by
    rw [StateT.run_bind, hrun]
    rfl
  rw [hbind] at herror
  rw [staticLocals, List.flatMap_append, ← staticLocals, ← staticLocals]
  have hfirst := haction.2 h
  have hgrown := haction.1 h
  rw [hrun] at hfirst hgrown
  rcases (hk first).2 h' e herror with hfailed | ⟨hfailure, l, hclash, he⟩
  · rcases hfirst e hfailed with hfailed | ⟨hfailure, l, hclash, he⟩
    · exact .inl hfailed
    · exact .inr ⟨hfailure, l, hclash.append_right, he⟩
  · obtain ⟨-, hgrown⟩ := hgrown hfailure
    have hdistinct := hgrown.not_clashes
    rw [hgrown.taken] at hclash
    rw [map_name_staticLocals] at hdistinct hclash
    exact .inr ⟨hgrown.failure, l, hclash.append_left hdistinct, he⟩

theorem reports_body (field : String) (e : Expr) :
    Reports (body field e) [(field, e)] (hoistBody field e) := by
  refine ⟨hoists_body field e, fun h error herror => ?_⟩
  cases hfailure : h.failure with
  | some failure =>
    rw [run_body_of_failed field e hfailure, hfailure] at herror
    exact .inl herror
  | none =>
    rw [run_body field e hfailure] at herror
    obtain ⟨l, hclash, he⟩ := add_error hfailure herror
    exact .inr ⟨rfl, l, by simpa [staticLocals] using hclash, he⟩

end Hoisting

/-! ## Classes -/

def memberNames (c : ClassDef) : List String := (c.statics ++ c.fields).map (·.name)

theorem localStatic_error {c d : ClassDef} {e : FilterError} (h : localStatic c = (d, .error e)) :
    ∃ l, FirstClash (memberNames c) (staticLocals c.bodyExprs) l ∧ e = l.conflict := by
  have hvisit := (ClassDef.rel_visitBodies Hoisting.reports_pure Hoisting.reports_bind
    Hoisting.reports_body c).2 ⟨c.statics.map (·.name) ++ c.fields.map (·.name), [], none⟩
  rw [memberNames, List.map_append]
  unfold localStatic at h
  dsimp only at h
  generalize (c.visitBodies Hoisting.body).run _ = visited at h hvisit
  obtain ⟨visitedClass, visit⟩ := visited
  dsimp only at h
  cases hfailure : visit.failure with
  | none =>
    rw [hfailure] at h
    cases h
  | some failure =>
    rw [hfailure] at h
    cases h
    rcases hvisit e hfailure with h | ⟨-, hclash⟩
    · cases h
    · exact hclash

theorem not_clashes_of_ok {c d : ClassDef} {count : Nat} (h : localStatic c = (d, .ok count)) :
    ¬ Clashes (memberNames c) ((staticLocals c.bodyExprs).map (·.name)) := by
  obtain ⟨-, -, hdistinct, hfresh⟩ := localStatic_ok h
  rw [← map_name_staticLocals, memberNames, List.map_append]
  rintro (hnodup | ⟨name, hname, htaken⟩)
  · exact hnodup hdistinct
  · obtain ⟨m, hm, rfl⟩ := List.mem_map.mp hname
    exact hfresh m hm htaken

theorem names_statics_hoist (c : ClassDef) :
    (hoist c).statics.map (·.name) =
      c.statics.map (·.name) ++ (staticLocals c.bodyExprs).map (·.name) := by
  rw [← map_name_staticLocals, hoist, ClassDef.mapBodies, hoisted, List.map_append, List.map_map]
  rfl

theorem names_fields_hoist (c : ClassDef) :
    (hoist c).fields.map (·.name) = c.fields.map (·.name) := by
  rw [hoist, ClassDef.mapBodies, List.map_map]
  rfl

theorem nodup_memberNames_hoist {c : ClassDef} (hdistinct : (memberNames c).Nodup)
    (h : ¬ Clashes (memberNames c) ((staticLocals c.bodyExprs).map (·.name))) :
    (memberNames (hoist c)).Nodup := by
  have hnew : ((staticLocals c.bodyExprs).map (·.name) ++ memberNames c).Nodup := by
    simp only [Clashes, not_or, not_not, not_exists, not_and] at h
    exact List.nodup_append.mpr ⟨h.1, hdistinct, fun name hname _ htaken heq =>
      h.2 name hname (heq ▸ htaken)⟩
  refine (List.Perm.nodup_iff ?_).mp hnew
  rw [memberNames, memberNames, List.map_append, List.map_append, names_statics_hoist,
    names_fields_hoist, ← List.append_assoc]
  exact List.perm_append_comm.append_right _

/-- Where hoisting succeeds, the statics of the class keep their names, the new ones come after them
and are as many as it reports, and if the names of statics and fields were distinct before, they are
distinct again. It fails if and only if new names coincide, or one of them with the name of a static
or a field, and reports the first variable with such a name. -/
theorem localStatic_names_distinct (c : ClassDef) :
    (∀ d count, localStatic c = (d, .ok count) →
      ((memberNames c).Nodup → (memberNames d).Nodup) ∧
      d.fields.map (·.name) = c.fields.map (·.name) ∧
      d.statics.map (·.name) =
        c.statics.map (·.name) ++ (staticLocals c.bodyExprs).map (·.name) ∧
      d.statics.length = c.statics.length + count) ∧
    (Clashes (memberNames c) ((staticLocals c.bodyExprs).map (·.name)) ↔
      ∃ d l, localStatic c = (d, .error l.conflict) ∧
        FirstClash (memberNames c) (staticLocals c.bodyExprs) l) := by
  refine ⟨fun d count hrun => ?_, fun hclashes => ?_, ?_⟩
  · have hfree := not_clashes_of_ok hrun
    obtain ⟨rfl, hcount, -⟩ := localStatic_ok hrun
    refine ⟨fun h => nodup_memberNames_hoist h hfree, names_fields_hoist c,
      names_statics_hoist c, ?_⟩
    rw [hcount, hoist, List.length_append, ClassDef.mapBodies, List.length_map]
  · cases hrun : localStatic c with
    | mk d result =>
      cases result with
      | ok count => exact absurd hclashes (not_clashes_of_ok hrun)
      | error e =>
        obtain ⟨l, hclash, rfl⟩ := localStatic_error hrun
        exact ⟨d, l, rfl, hclash⟩
  · rintro ⟨-, l, -, hclash⟩
    exact hclash.clashes

/-- A class with two methods: `a_b` has the static variable `c`, and `a` has `b_c`. -/
def splitNames : ClassDef :=
  let method (field word : String) : Member :=
    .method field (.func [] .void) (some ⟨declare true word (.int "0" .null), .void⟩)
  { ClassDef.empty ⟨["demo"], "Foo"⟩ ⟨["demo"], "Foo"⟩ with
    fields := [method "a_b" "c", method "a" "b_c"] }

/-- Both variables of `splitNames` would become `a_b_c`: the second one is reported. -/
theorem localStatic_names_split :
    (∃ d, localStatic (withRun countingBody) = (d, .ok 1) ∧ (memberNames d).Nodup) ∧
      ∃ d, ∃ l : StaticLocal, localStatic splitNames = (d, .error l.conflict) ∧
        l.field = "a" ∧ l.name = "a_b_c" := by
  constructor
  · have hrun : localStatic (withRun countingBody) =
        ((localStatic (withRun countingBody)).1, .ok 1) := Prod.ext rfl rfl
    obtain ⟨hnodup, -⟩ := (localStatic_names_distinct (withRun countingBody)).1 _ _ hrun
    exact ⟨_, hrun, hnodup (by decide)⟩
  · obtain ⟨c, bc, hlocals, hc, hbc, hfield⟩ : ∃ c bc, staticLocals splitNames.bodyExprs = [c, bc] ∧
        c.name = "a_b_c" ∧ bc.name = "a_b_c" ∧ bc.field = "a" :=
      ⟨_, _, rfl, by decide, by decide, rfl⟩
    have hclashes : Clashes (memberNames splitNames)
        ((staticLocals splitNames.bodyExprs).map (·.name)) := by
      rw [hlocals]
      exact .inl (by simp [hc, hbc])
    obtain ⟨d, l, hrun, before, after, hsplit, hname, hbefore⟩ :=
      (localStatic_names_distinct splitNames).2.mp hclashes
    rw [hlocals] at hsplit
    rcases before with _ | ⟨first, before⟩
    · obtain ⟨rfl, -⟩ := List.cons.inj hsplit
      rw [hc] at hname
      exact absurd hname (by decide)
    · obtain ⟨-, hrest⟩ := List.cons.inj hsplit
      rcases before with _ | ⟨second, before⟩
      · obtain ⟨rfl, -⟩ := List.cons.inj hrest
        exact ⟨d, bc, hrun, hfield, hbc⟩
      · simp at hrest

end Filter

end HaxeMacro
