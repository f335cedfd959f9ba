import HaxeMacro.Proofs.Engine.Rejection

/-! # Arguments that are collected

The last parameter of a macro may collect arguments. It is then given all arguments from its place
on, and the parameters before it are given the arguments in their places.
-/

namespace HaxeMacro

variable {R I G : Type}

/-! ## Parameters -/

def Ty.rest (item : Ty) : Ty := .abstract ⟨["haxe"], "Rest"⟩ [item]

theorem Ty.restItem?_eq_some_iff {t item : Ty} : t.restItem? = some item ↔ t = .rest item := by
  constructor
  · intro h
    unfold restItem? at h
    split at h
    · split at h <;> cases h
      rename_i hpath
      rw [hpath]
      rfl
    · cases h
  · rintro rfl
    rfl

def TyParam.Collects (p : TyParam) : Prop := p.type = .array .macroExpr ∨ p.type = .rest .macroExpr

theorem TyParam.type_restAsArray_iff {p : TyParam} :
    p.restAsArray.type = .array .macroExpr ↔ p.Collects := by
  unfold restAsArray Collects
  cases hitem : p.type.restItem? with
  | none =>
    have hne : p.type ≠ .rest .macroExpr := by
      intro h
      cases (Ty.restItem?_eq_some_iff.mpr h).symm.trans hitem
    simp [hne]
  | some item =>
    rw [Ty.restItem?_eq_some_iff.mp hitem]
    simp [Ty.array, Ty.rest]

theorem restAsArray_concat (ps : List TyParam) (p : TyParam) :
    restAsArray (ps ++ [p]) = ps ++ [p.restAsArray] := by
  induction ps with
  | nil => rfl
  | cons q ps ih =>
    rw [List.cons_append, List.cons_append, ← ih]
    cases ps <;> rfl

namespace CallArgs

theorem collects_concat {ps : List TyParam} {p : TyParam} :
    collects (restAsArray (ps ++ [p])) = true ↔ p.Collects := by
  rw [restAsArray_concat, collects, List.getLast?_concat, ← TyParam.type_restAsArray_iff]
  exact beq_iff_eq

theorem split_of_collects {ps : List TyParam} {p : TyParam} {args : List Expr} (hp : p.Collects)
    (hargs : ps.length ≤ args.length) (pos : Position) :
    split (restAsArray (ps ++ [p])) args pos =
      ⟨args.take ps.length ++ [⟨.array [], pos⟩], some (args.drop ps.length)⟩ := by
  have hcount : (restAsArray (ps ++ [p])).length - 1 = ps.length := by
    rw [restAsArray_concat, List.length_append, List.length_singleton, Nat.add_sub_cancel]
  unfold split
  rw [hcount]
  exact if_pos (Bool.and_eq_true_iff.mpr ⟨collects_concat.mpr hp, Nat.ble_eq.mpr hargs⟩)

theorem split_eq_self {params : List TyParam} {args : List Expr}
    (h : args.length + 1 < params.length ∨ ∀ p, params.getLast? = some p → ¬p.Collects)
    (pos : Position) : split (restAsArray params) args pos = ⟨args, none⟩ := by
  obtain rfl | ⟨ps, p, rfl⟩ := List.eq_nil_or_concat' params
  · rfl
  · unfold split
    refine if_neg fun hsplit => ?_
    obtain ⟨hcollects, hcount⟩ := Bool.and_eq_true_iff.mp hsplit
    have hp := collects_concat.mp hcollects
    rw [restAsArray_concat] at hcount
    rcases h with hfew | hlast
    · have := Nat.ble_eq.mp hcount
      simp at this hfew
      omega
    · exact hlast p List.getLast?_concat hp

end CallArgs

/-- Arguments are matched with the parameters in their places. -/
def Typer.MatchesInPlace (t : Typer I G) : Prop :=
  ∀ args params pos g matched, ((t.matchArgs args params pos).run g).1 = .ok matched →
    ∀ i, i < args.length → i < params.length → ∃ typed, matched[i]? = some (.supplied i typed)

namespace EngineM

variable (t : Typer I G) (rt : Runtime R I G)

/-! ## Values -/

/-- The value that a parameter is given for an argument, by the way in which it takes it. -/
inductive Marshals (name : String) (pos : Position) (p : TyParam) (e : Expr) (typed : TypedExpr) :
    ArgClass → Value → Prop
  | expression : Marshals name pos p e typed .expression e.asArgument
  | closure {s s₁ s₂ : EngineState R I G} {closure : TypedExpr} {v : Value}
    (htyped : (checkMacros (t.typeExpr e (some p.type))).run s = (.ok (.ok closure), s₁))
    (hvalue : (evaluate rt name pos closure).run s₁ = (.ok v, s₂)) :
    Marshals name pos p e typed .closure v
  | evaluated {s s₁ : EngineState R I G} {v : Value}
    (hvalue : (evaluate rt name pos typed).run s = (.ok v, s₁)) :
    Marshals name pos p e typed .evaluated v

/-- The values of a call whose last parameter collects arguments: every parameter in `ps` is given
its argument, and the last one is given all others. -/
structure Collected (name : String) (pos : Position) (ps : List TyParam) (args : List Expr)
    (call : PreparedCall) : Prop where
  length : call.values.length = ps.length + 1
  fixed : ∀ i < ps.length, ∃ p e kind typed v, ps[i]? = some p ∧ args[i]? = some e ∧
    call.classes[i]? = some kind ∧ call.matched[i]? = some (.supplied i typed) ∧
    call.values[i]? = some v ∧ Marshals t rt name pos p e typed kind v
  rest : call.values[ps.length]? = some (.array ((args.drop ps.length).map Expr.asArgument))

variable {t rt} {s s' : EngineState R I G}

theorem marshals_of_marshalArg {name : String} {pos : Position} {args : List Expr} {p : TyParam}
    {kind : ArgClass} {i : Nat} {typed : TypedExpr} {e : Expr} {v : Value}
    (h : (marshalArg t rt name pos args p kind (.supplied i typed)).run s = (.ok v, s'))
    (he : args[i]? = some e) : Marshals t rt name pos p e typed kind v := by
  have hgiven : (args[i]?).getD typed.expr = e := by rw [he, Option.getD_some]
  cases kind with
  | expression =>
    cases h
    rw [hgiven]
    exact .expression
  | evaluated => exact .evaluated h
  | closure =>
    obtain ⟨scope, s₁, -, hchecking⟩ := ok_of_run_bind h
    obtain ⟨result, s₂, hcheck, horFail⟩ := ok_of_run_bind hchecking
    obtain ⟨closure, s₃, htyped, hvalue⟩ := ok_of_run_bind horFail
    obtain ⟨rfl, rfl⟩ := ok_of_run_orFail htyped
    rw [hgiven] at hcheck
    exact .closure hcheck hvalue

theorem length_placeRest (rest : Option (List Expr)) (values : List Value) :
    (placeRest rest values).length = values.length := by
  cases rest with
  | none => rfl
  | some rest => cases values <;> simp [placeRest]

theorem getElem?_placeRest_last {rest : List Expr} {values : List Value} {k : Nat}
    (h : values.length = k + 1) :
    (placeRest (some rest) values)[k]? = some (.array (rest.map Expr.asArgument)) := by
  cases values with
  | nil => cases h
  | cons v vs =>
    have hlength : (v :: vs).dropLast.length = k := by rw [List.length_dropLast, h]; rfl
    rw [placeRest, ← hlength, List.getElem?_concat_length]

theorem loadMacro_of_accept {mode : CallMode} {r : Reference} {pos : Position} {b : Binding}
    (h : (accept t rt mode r pos).run s = (.ok b, s')) :
    ∃ s₁, (loadMacro t rt .program r (mode == .display) pos).run s = (.ok b, s₁) := by
  obtain ⟨b', s₁, hload, hcontext⟩ := ok_of_run_bind h
  obtain ⟨scope, s₂, -, hcontract⟩ := ok_of_run_bind hcontext
  obtain ⟨u, s₃, -, hend⟩ := ok_of_run_bind hcontract
  cases hend
  exact ⟨s₁, hload⟩

theorem length_of_classifyParams {b : Binding} {classes : List ArgClass}
    (h : (classifyParams t rt b).run s = (.ok classes, s')) :
    classes.length = (restAsArray b.params).length := by
  obtain ⟨scope, s₁, -, hclasses⟩ := ok_of_run_bind h
  exact (forall₂_of_run_mapM hclasses).length_eq.symm

theorem Readies.getElem?_values {mode : CallMode} {r : Reference} {args : List Expr}
    {pos : Position} {call : PreparedCall} (h : Readies t rt mode r args pos s call s') {i : Nat}
    {p : TyParam} (hp : call.params[i]? = some p)
    (hi : call.args.rest = none ∨ i + 1 < call.params.length) :
    ∃ kind v, call.classes[i]? = some kind ∧ call.values[i]? = some v ∧
      ∃ s₁ s₂ : EngineState R I G, (marshalArg t rt r.text pos call.args.fixed p kind
        (call.matched[i]?.getD .omitted)).run s₁ = (.ok v, s₂) := by
  obtain @⟨s₁, s₂, s₃, values, -, hclasses, -, -, hmarshal, hvalues⟩ := h
  obtain ⟨hlength, hmarshaled⟩ := getElem?_of_marshalArgs hmarshal
  have hkinds : call.classes.length = call.params.length := length_of_classifyParams hclasses
  have hlt : i < call.classes.length := by
    rw [hkinds]
    exact (List.getElem?_eq_some_iff.mp hp).1
  have hkind := List.getElem?_eq_getElem hlt
  obtain ⟨v, hv, hrun⟩ := hmarshaled i p _ (List.getElem?_zip_eq_some.mpr ⟨hp, hkind⟩)
  refine ⟨_, v, hkind, ?_, hrun⟩
  rw [hvalues]
  refine getElem?_placeRest (hi.imp_right fun hi => ?_) hv
  rwa [hlength, List.length_zip, hkinds, Nat.min_self]

theorem Readies.length_values {mode : CallMode} {r : Reference} {args : List Expr}
    {pos : Position} {call : PreparedCall} (h : Readies t rt mode r args pos s call s') :
    call.values.length = call.params.length := by
  obtain @⟨s₁, s₂, s₃, values, -, hclasses, -, -, hmarshal, hvalues⟩ := h
  have hkinds : call.classes.length = call.params.length := length_of_classifyParams hclasses
  rw [hvalues, length_placeRest, (getElem?_of_marshalArgs hmarshal).1, List.length_zip, hkinds,
    Nat.min_self]

theorem Readies.getElem?_matched {mode : CallMode} {r : Reference} {args : List Expr}
    {pos : Position} {call : PreparedCall} (h : Readies t rt mode r args pos s call s')
    (ht : t.MatchesInPlace) {i : Nat} (hi : i < call.args.fixed.length)
    (hp : i < call.params.length) : ∃ typed, call.matched[i]? = some (.supplied i typed) := by
  obtain @⟨s₁, s₂, s₃, values, -, hclasses, hmatch, hsplit, -, -⟩ := h
  have hkinds : call.classes.length = call.params.length := length_of_classifyParams hclasses
  rw [hsplit] at hi
  refine ht _ _ pos (s₂.compilation.primary.typer, s₂.world) call.matched
    (Except.ok.inj (Prod.mk.inj hmatch).1) i hi ?_
  rwa [List.length_zipWith, hkinds, PreparedCall.params, Nat.min_self]

theorem Readies.collected {mode : CallMode} {r : Reference} {args : List Expr} {pos : Position}
    {call : PreparedCall} (h : Readies t rt mode r args pos s call s') (ht : t.MatchesInPlace)
    {ps : List TyParam} {p : TyParam} (hparams : call.binding.params = ps ++ [p])
    (hp : p.Collects) (hargs : ps.length ≤ args.length) :
    Collected t rt r.text pos ps args call := by
  have hsplit : call.args =
      ⟨args.take ps.length ++ [⟨.array [], pos⟩], some (args.drop ps.length)⟩ := by
    obtain ⟨-, -, -, hsplit, -, -⟩ := h
    rw [hsplit, Binding.split, hparams, CallArgs.split_of_collects hp hargs]
  have hall : call.params = ps ++ [p.restAsArray] := by
    rw [PreparedCall.params, hparams, restAsArray_concat]
  have hcount : call.params.length = ps.length + 1 := by
    rw [hall, List.length_append, List.length_singleton]
  refine ⟨h.length_values.trans hcount, fun i hi => ?_, ?_⟩
  · have hparam : call.params[i]? = some ps[i] := by
      rw [hall, List.getElem?_append_left hi, List.getElem?_eq_getElem hi]
    have hi' : i < args.length := Nat.lt_of_lt_of_le hi hargs
    have hfixed : call.args.fixed[i]? = some args[i] := by
      rw [hsplit, List.getElem?_append_left (by simp; omega), List.getElem?_take_of_lt hi,
        List.getElem?_eq_getElem hi']
    obtain ⟨kind, v, hkind, hv, s₁, s₂, hrun⟩ :=
      h.getElem?_values hparam (.inr (by omega))
    obtain ⟨typed, htyped⟩ := h.getElem?_matched ht (List.getElem?_eq_some_iff.mp hfixed).1
      (by omega)
    rw [htyped, Option.getD_some] at hrun
    exact ⟨_, _, kind, typed, v, List.getElem?_eq_getElem hi, List.getElem?_eq_getElem hi', hkind,
      htyped, hv, marshals_of_marshalArg hrun hfixed⟩
  · have hlength := h.length_values.trans hcount
    obtain @⟨-, -, -, values, -, -, -, -, -, hvalues⟩ := h
    rw [hvalues, length_placeRest] at hlength
    rw [hvalues, hsplit]
    exact getElem?_placeRest_last hlength

/-- Arguments that are collected are neither lost nor doubled, nor do they change their order. If
the last parameter of a macro collects and the arguments reach it, all that is run before the macro
are evaluations of arguments, and either the call fails without the macro being called, or the macro
is called once, with the values of the arguments for the parameters before the last one, and with
all other arguments in an array. If no parameter collects or the arguments are too few, they are
left as they are. -/
theorem rest_arguments_collected {log : G → List RuntimeTask} (h : TaskLog t rt log)
    (ht : t.MatchesInPlace) :
    (∀ mode r b ps p args pos (s s₁ : EngineState R I G), mode ≠ .display →
      (loadMacro t rt .program r false pos).run (s.selecting .macros) = (.ok b, s₁) →
      b.params = ps ++ [p] → p.Collects → ps.length ≤ args.length →
      ∃ s₂, s.Adds log RuntimeTask.IsEvaluation s₂ ∧
        ((∃ fault s', (invoke t rt .program mode r args pos).run s = (.error fault, s') ∧
          log s'.world.host = log s₂.world.host) ∨
        ∃ call result s', Readies t rt mode r args pos (s.selecting .macros) call s₂ ∧
          Collected t rt r.text pos ps args call ∧
          (invoke t rt .program mode r args pos).run s = (result, s') ∧
          log s'.world.host = log s₂.world.host ++
            [.callByPath b.classPath b.field call.values])) ∧
    ∀ params args pos,
      (args.length + 1 < params.length ∨ ∀ p, params.getLast? = some p → ¬p.Collects) →
      CallArgs.split (restAsArray params) args pos = ⟨args, none⟩ := by
  refine ⟨fun mode r b ps p args pos s s₁ hmode hload hparams hp hargs => ?_,
    fun params args pos hnone => CallArgs.split_eq_self hnone pos⟩
  obtain ⟨s₂, hadds, hfails | ⟨call, result, s', hreadies, hrun, hlog⟩⟩ :=
    invoke_cases h hmode r args pos s
  · exact ⟨s₂, hadds, .inl hfails⟩
  · have hbinding : call.binding = b := by
      obtain ⟨haccept, -, -, -, -, -⟩ := hreadies
      -- The macro that is called is the one that was loaded from the same state.
      obtain ⟨s₃, hloaded⟩ := loadMacro_of_accept haccept
      rw [beq_eq_false_iff_ne.mpr hmode, hload] at hloaded
      cases hloaded
      rfl
    rw [hbinding] at hlog
    rw [← hbinding] at hparams
    exact ⟨s₂, hadds, .inr ⟨call, result, s', hreadies, hreadies.collected ht hparams hp hargs,
      hrun, hlog⟩⟩

end EngineM

/-! ## A macro that collects -/

namespace RestCall

def inPlace : Typer Checker Host :=
  { Checker.typer with
    matchArgs := fun args params _ =>
      pure ((args.zip params).mapIdx fun i given => .supplied i ⟨given.1, given.2.type⟩) }

theorem matchesInPlace : inPlace.logged.MatchesInPlace := by
  intro args params pos g matched h i hargs hparams
  obtain rfl := Except.ok.inj h
  have hzip : (args.zip params)[i]? = some (args[i], params[i]) := List.getElem?_zip_eq_some.mpr
    ⟨List.getElem?_eq_getElem hargs, List.getElem?_eq_getElem hparams⟩
  refine ⟨⟨args[i], params[i].type⟩, ?_⟩
  rw [List.getElem?_mapIdx, hzip]
  rfl

def gather : Reference := ⟨Echo.tools, "gather"⟩

def fixed : List TyParam := [⟨"first", false, .macroExpr⟩, ⟨"limit", false, .int⟩]

def more : TyParam := ⟨"more", false, .rest .macroExpr⟩

def templates : Entries Path ModuleDef :=
  let macroClass := { ClassDef.empty Echo.tools Echo.tools with
    statics := [.method "gather" (.func (fixed ++ [more]) .macroExpr) none] }
  [(Echo.tools, ⟨Echo.tools, [.classType macroClass]⟩)]

def typer : Typer Checker (Logged Host) := inPlace.logged

def runtime : Runtime Unit Checker (Logged Host) := (Echo.runtime List.head?).logged

def start : EngineState Unit Checker (Logged Host) :=
  ⟨.new, Echo.start.compilation,
    World.withLog
      ⟨[], ⟨.new (Registry.bootstrapTemplates ++ templates) ⟨[], [], false, none⟩, []⟩⟩ []⟩

def ident (name : String) : Expr := ⟨.const (.ident name), Echo.pos⟩

def args : List Expr := [Echo.given, ident "n", ident "x", ident "y"]

def loaded : Except Fault Binding × EngineState Unit Checker (Logged Host) :=
  (EngineM.loadMacro typer runtime .program gather false Echo.pos).run (start.selecting .macros)

def called : Except Fault CallResult × EngineState Unit Checker (Logged Host) :=
  (EngineM.invoke typer runtime .program .expr gather args Echo.pos).run start

/-- The last two arguments are collected, and the macro is called with them. -/
theorem collected_called : ∃ (evaluated : List RuntimeTask) (b : Binding) (call : PreparedCall),
    EngineM.Collected typer runtime gather.text Echo.pos fixed args call ∧
    called.2.world.host.tasks = evaluated ++ [.callByPath b.classPath b.field call.values] ∧
    CallArgs.split (restAsArray (fixed ++ [more])) [Echo.given] Echo.pos =
      ⟨[Echo.given], none⟩ := by
  obtain ⟨hcalls, hself⟩ := EngineM.rest_arguments_collected
    (TaskLog.logged inPlace (Echo.runtime List.head?)) matchesInPlace
  have hsame :
      loaded.1.toOption.any (fun b => Ty.sameParams b.params (fixed ++ [more])) = true := by
    decide +kernel
  have hok : called.1.isOk = true := by decide +kernel
  cases hload : loaded.1 with
  | error fault =>
    rw [hload] at hsame
    cases hsame
  | ok b =>
    rw [hload] at hsame
    have hparams : b.params = fixed ++ [more] := Ty.eq_of_sameParams _ _ hsame
    obtain ⟨s₂, ⟨evaluated, hevaluated, -⟩, ⟨fault, s', hrun, -⟩ |
      ⟨call, result, s', -, hcollected, hrun, hlog⟩⟩ := hcalls .expr gather b fixed more args
        Echo.pos start loaded.2 (by decide) (Prod.ext hload rfl) hparams (.inr rfl) (by decide)
    · have herror : called.1 = .error fault := congrArg Prod.fst hrun
      rw [herror] at hok
      cases hok
    · have hend : called.2 = s' := congrArg Prod.snd hrun
      refine ⟨evaluated, b, call, hcollected, ?_, hself _ _ _ (.inl (by decide))⟩
      rw [hend, hlog, hevaluated]
      rfl

end RestCall

end HaxeMacro
