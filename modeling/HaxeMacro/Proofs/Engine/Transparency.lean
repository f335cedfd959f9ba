import HaxeMacro.Fragment.Equality
import HaxeMacro.Proofs.Codec.RoundTrip
import HaxeMacro.Proofs.Engine.Steady
import HaxeMacro.Proofs.Parser.Plain
import HaxeMacro.Rehearsal.Stage

/-! # Fragments on their way through a call

A call prepares the values for its macro and reads what the runtime gives back. A fragment that the
runtime gives back as it came is the same fragment.
-/

namespace HaxeMacro

variable {R I G α β : Type}

structure PreparedCall where
  binding : Binding
  args : CallArgs
  classes : List ArgClass
  matched : List MatchedArg
  values : List Value

namespace PreparedCall

def params (call : PreparedCall) : List TyParam := restAsArray call.binding.params

def given? (call : PreparedCall) (i : Nat) : Option Expr :=
  match call.matched[i]? with
  | some (.supplied index typed) => some ((call.args.fixed[index]?).getD typed.expr)
  | _ => none

/-- The place of the value that the collected arguments make up, if any are collected. -/
def collectedAt? (call : PreparedCall) : Option Nat :=
  call.args.rest.map fun _ => call.params.length - 1

end PreparedCall

/-- The first argument stays the first one, unless it is collected. -/
theorem CallArgs.fixed_split_zero {params : List TyParam} {e : Expr} {es : List Expr}
    {pos : Position}
    (h : (split params (e :: es) pos).rest.map (fun _ => params.length - 1) ≠ some 0) :
    (split params (e :: es) pos).fixed[0]? = some e := by
  unfold split at h ⊢
  dsimp only at h ⊢
  split
  · rename_i hcollects
    rw [if_pos hcollects] at h
    cases hcount : params.length - 1 with
    | zero => exact absurd (congrArg some hcount) h
    | succ count => rfl
  · rfl

namespace EngineM

variable (t : Typer I G) (rt : Runtime R I G) {s s' : EngineState R I G}

/-! ## Preparation and execution -/

def prepareCall (r : Reference) (b : Binding) (args : List Expr) (pos : Position) :
    EngineM R I G PreparedCall := do
  let params := restAsArray b.params
  let split := CallArgs.split params args pos
  let _ ← macroContext t rt
  let classes ← params.mapM (classify t)
  let widened := List.zipWith ArgClass.widen params classes
  let matched ← orFail (← checkPrimary (t.matchArgs split.fixed widened pos))
  let values ← marshalArgs t rt r.text pos split.fixed (params.zip classes) matched
  return ⟨b, split, classes, matched, placeRest split.rest values⟩

/-- The part of an invocation up to the values. -/
def prepare (mode : CallMode) (r : Reference) (args : List Expr) (pos : Position) :
    EngineM R I G PreparedCall := do
  let b ← loadMacro t rt .program r (mode == .display) pos
  let _ ← macroContext t rt
  checkContract t mode b pos
  prepareCall t rt r b args pos

def execute (mode : CallMode) (r : Reference) (pos : Position) (call : PreparedCall) :
    EngineM R I G CallResult := do
  match ← withRuntime r.text pos
    (rt.callByPath call.binding.classPath call.binding.field call.values) with
  | none => return .nothing
  | some v => readResult t mode v pos

theorem call_eq (mode : CallMode) (r : Reference) (b : Binding) (args : List Expr)
    (pos : Position) :
    call t rt mode r b args pos =
      (do execute t rt mode r pos (← prepareCall t rt r b args pos)) := by
  simp only [call, prepareCall, bind_assoc, pure_bind]
  rfl

theorem invoke_eq {mode : CallMode} (hmode : mode ≠ .display) (r : Reference) (args : List Expr)
    (pos : Position) :
    invoke t rt .program mode r args pos =
      withMacroSelection (do execute t rt mode r pos (← prepare t rt mode r args pos)) := by
  simp only [invoke, prepare, call_eq, hmode, if_false, bind_assoc]

/-- The invocation comes to execute a call that it has prepared, and `returned` is what the runtime
gives for it. -/
inductive Executes (mode : CallMode) (r : Reference) (args : List Expr) (pos : Position)
    (s : EngineState R I G) (call : PreparedCall)
    (returned : Except RuntimeFailure (Option Value)) : Prop
  | intro {s' : EngineState R I G} {live : LiveRuntime R}
    (hprepare : (prepare t rt mode r args pos).run (s.selecting .macros) = (.ok call, s'))
    (hlive : s'.engine.runtime = some live) (hhealthy : live.handle.poisoned = false)
    (hreturned : ((rt.callByPath call.binding.classPath call.binding.field call.values).run
      (live.state, (beginCall s' r.text pos).2)).1 = returned)

variable {t rt}

theorem Executes.fst_invoke {mode : CallMode} {r : Reference} {args : List Expr} {pos : Position}
    {call : PreparedCall} {v : Value} (h : Executes t rt mode r args pos s call (.ok (some v)))
    (hmode : mode ≠ .display) : ∃ s' : EngineState R I G,
      ((invoke t rt .program mode r args pos).run s).1 = ((readResult t mode v pos).run s').1 := by
  obtain @⟨s₁, live, hprepare, hlive, hhealthy, hreturned⟩ := h
  let action := rt.callByPath call.binding.classPath call.binding.field call.values
  have hrun : (withRuntime r.text pos action).run s₁ =
      (.ok (some v), called s₁ r.text pos live action) := by
    rw [run_withRuntime hlive hhealthy, hreturned]
    rfl
  refine ⟨called s₁ r.text pos live action, ?_⟩
  rw [invoke_eq t rt hmode, run_withMacroSelection]
  dsimp only
  rw [run_bind_ok hprepare, execute, run_bind_ok hrun]

/-! ## Results -/

theorem fst_readResult_expr {v : Value} {e : Expr} (h : v.decodeExpr = .ok e) (pos : Position) :
    ((readResult t .expr v pos : EngineM R I G CallResult).run s).1 =
      .ok (.expr (e.fillPositions pos)) := by
  have hrun : (readResult t .expr v pos : EngineM R I G CallResult).run s = _ := run_bind_ok rfl
  rw [hrun, h]
  rfl

theorem fst_readResult_build {v : Value} {fs : List Field} (hnull : v.isNull = false)
    (h : v.decodeFields = .ok fs) (pos : Position) :
    ((readResult t .build v pos : EngineM R I G CallResult).run s).1 = .ok (.fields fs) := by
  have hrun : (readResult t .build v pos : EngineM R I G CallResult).run s = _ := run_bind_ok rfl
  rw [hrun, h]
  simp only [hnull]
  rfl

/-! ## Values -/

theorem getElem?_of_marshalArgs {name : String} {pos : Position} {args : List Expr}
    {ps : List (TyParam × ArgClass)} {matched : List MatchedArg} {values : List Value}
    (h : (marshalArgs t rt name pos args ps matched).run s = (.ok values, s')) :
    values.length = ps.length ∧ ∀ (i : Nat) (p : TyParam) (kind : ArgClass),
      ps[i]? = some (p, kind) → ∃ v, values[i]? = some v ∧ ∃ s₁ s₂ : EngineState R I G,
        (marshalArg t rt name pos args p kind (matched[i]?.getD .omitted)).run s₁ =
          (.ok v, s₂) := by
  induction ps generalizing matched values s with
  | nil =>
    cases h
    simp
  | cons q ps ih =>
    obtain ⟨v, s₁, hv, h⟩ := ok_of_run_bind h
    obtain ⟨vs, s₂, hvs, h⟩ := ok_of_run_bind h
    cases h
    obtain ⟨hlength, hvalues⟩ := ih hvs
    refine ⟨congrArg (· + 1) hlength, fun i p kind hp => ?_⟩
    cases i with
    | zero =>
      cases hp
      rw [List.head?_eq_getElem?] at hv
      exact ⟨v, rfl, s, s₁, hv⟩
    | succ i =>
      have hvalue := hvalues i p kind hp
      rw [List.getElem?_tail] at hvalue
      exact hvalue

theorem marshalArgs_ok {name : String} {pos : Position} {args : List Expr}
    {ps : List (TyParam × ArgClass)} {matched : List MatchedArg} {values : List Value}
    (h : (marshalArgs t rt name pos args ps matched).run s = (.ok values, s')) :
    values.length = ps.length ∧ ∀ (i : Nat) (p : TyParam) (index : Nat) (typed : TypedExpr),
      ps[i]? = some (p, .expression) → matched[i]? = some (.supplied index typed) →
      values[i]? = some ((args[index]?).getD typed.expr).asArgument := by
  obtain ⟨hlength, hvalues⟩ := getElem?_of_marshalArgs h
  refine ⟨hlength, fun i p index typed hp hmatched => ?_⟩
  obtain ⟨v, hv, s₁, s₂, hrun⟩ := hvalues i p .expression hp
  rw [hmatched] at hrun
  cases hrun
  exact hv

/-! ## Prepared calls -/

structure Prepared (args : List Expr) (pos : Position) (call : PreparedCall) : Prop where
  args : call.args = .split call.params args pos
  classes : call.params.length = call.classes.length
  values : ∃ values, call.values = placeRest call.args.rest values ∧
    values.length = call.params.length ∧
    ∀ i e, call.classes[i]? = some .expression → call.given? i = some e →
      values[i]? = some e.asArgument

theorem prepared_of_prepareCall {r : Reference} {b : Binding} {args : List Expr} {pos : Position}
    {call : PreparedCall} (h : (prepareCall t rt r b args pos).run s = (.ok call, s')) :
    Prepared args pos call := by
  obtain ⟨scope, s₁, -, h⟩ := ok_of_run_bind h
  obtain ⟨classes, s₂, hclasses, h⟩ := ok_of_run_bind h
  obtain ⟨checked, s₃, -, h⟩ := ok_of_run_bind h
  obtain ⟨matched, s₄, -, h⟩ := ok_of_run_bind h
  obtain ⟨values, s₅, hvalues, h⟩ := ok_of_run_bind h
  cases h
  have hclasses := (forall₂_of_run_mapM hclasses).length_eq
  obtain ⟨hlength, hgiven⟩ := marshalArgs_ok hvalues
  refine ⟨rfl, hclasses, values, rfl, ?_, fun i e hkind hexpr => ?_⟩
  · rw [hlength, List.length_zip, ← hclasses, Nat.min_self]
    rfl
  · unfold PreparedCall.given? at hexpr
    split at hexpr
    · rename_i index typed hmatched
      cases hexpr
      obtain ⟨p, hp⟩ : ∃ p, (restAsArray b.params)[i]? = some p := by
        refine ⟨_, List.getElem?_eq_getElem ?_⟩
        rw [hclasses]
        exact (List.getElem?_eq_some_iff.mp hkind).1
      exact hgiven i p index typed (List.getElem?_zip_eq_some.mpr ⟨hp, hkind⟩) hmatched
    · cases hexpr

theorem prepared_of_prepare {mode : CallMode} {r : Reference} {args : List Expr} {pos : Position}
    {call : PreparedCall} (h : (prepare t rt mode r args pos).run s = (.ok call, s')) :
    Prepared args pos call := by
  obtain ⟨b, s₁, -, h⟩ := ok_of_run_bind h
  obtain ⟨scope, s₂, -, h⟩ := ok_of_run_bind h
  obtain ⟨u, s₃, -, h⟩ := ok_of_run_bind h
  exact prepared_of_prepareCall h

/-- The collected arguments take no other place than the last one. -/
theorem getElem?_placeRest {rest : Option (List Expr)} {values : List Value} {i : Nat} {v : Value}
    (hi : rest = none ∨ i + 1 < values.length) (hv : values[i]? = some v) :
    (placeRest rest values)[i]? = some v := by
  cases rest with
  | none => exact hv
  | some rest =>
    have hi : i + 1 < values.length := hi.resolve_left nofun
    cases values with
    | nil => cases hv
    | cons first others =>
      have hlast : i < (first :: others).dropLast.length := by
        rw [List.length_dropLast]
        omega
      rw [placeRest, List.getElem?_append_left hlast, List.getElem?_dropLast, if_pos (by omega)]
      exact hv

theorem Executes.value {mode : CallMode} {r : Reference} {args : List Expr} {pos : Position}
    {call : PreparedCall} {returned : Except RuntimeFailure (Option Value)}
    (h : Executes t rt mode r args pos s call returned) {i : Nat} {e : Expr}
    (hkind : call.classes[i]? = some .expression) (hgiven : call.given? i = some e)
    (halone : call.collectedAt? ≠ some i) : call.values[i]? = some e.asArgument := by
  obtain @⟨s₁, live, hprepare, -, -, -⟩ := h
  have hcall := prepared_of_prepare hprepare
  obtain ⟨values, hvalues, hlength, hexpr⟩ := hcall.values
  have hi : i < call.params.length := by
    rw [hcall.classes]
    exact (List.getElem?_eq_some_iff.mp hkind).1
  rw [hvalues]
  refine getElem?_placeRest ?_ (hexpr i e hkind hgiven)
  cases hrest : call.args.rest with
  | none => exact .inl rfl
  | some rest =>
    have hne : i ≠ call.params.length - 1 := by
      rintro rfl
      exact halone (by rw [PreparedCall.collectedAt?, hrest, Option.map_some])
    exact .inr (by omega)

variable (t rt) in
/-- A macro that gives back one of its arguments is transparent: what is called with an expression
that was read from a text gives that expression, where every string stands between double quotes and
the position of the call stands in place of every null position of an expression, and nothing else
is changed. The argument may stand anywhere but where further arguments are collected: they take the
place of what was matched there, whether or not it is an expression. A macro that builds a class
from fields it gives back gives exactly these fields. -/
theorem identity_transparent (r : Reference) (args : List Expr) (pos : Position)
    (s : EngineState R I G) :
    (∀ text place e call i v, Expr.parse text place = .ok e →
      Executes t rt .expr r args pos s call (.ok (some v)) →
      call.classes[i]? = some .expression → call.given? i = some e →
      call.collectedAt? ≠ some i → call.values[i]? = some v →
      ((invoke t rt .program .expr r args pos).run s).1 =
        .ok (.expr (e.revise Constant.doubleQuoted (·.orElse pos)))) ∧
    ∀ call fs, Executes t rt .build r args pos s call
        (.ok (some (.array (fs.map Encode.field)))) →
      ((invoke t rt .program .build r args pos).run s).1 = .ok (.fields fs) := by
  refine ⟨fun text place e call i v hparse hexec hkind hgiven halone hv => ?_,
    fun call fs hexec => ?_⟩
  · have hargument : v = e.asArgument :=
      Option.some.inj (hv.symm.trans (hexec.value hkind hgiven halone))
    have hdecode : v.decodeExpr = .ok e.normalizeQuotes := by
      rw [hargument]
      exact decode_encode.1 e.normalizeQuotes
    obtain ⟨s', hrun⟩ := hexec.fst_invoke (by decide)
    rw [hrun, fst_readResult_expr hdecode,
      (Expr.plain_of_parse hparse).fillPositions_normalizeQuotes]
  · have hdecode : (Value.array (fs.map Encode.field)).decodeFields = .ok fs := by
      rw [Value.decodeFields, (roundTrips _).fieldDecl.array fs (Nat.le_refl _)]
      rfl
    obtain ⟨s', hrun⟩ := hexec.fst_invoke (by decide)
    rw [hrun, fst_readResult_build rfl hdecode]

end EngineM

/-! ## A runtime that gives back what it is given -/

namespace Echo

def tools : Path := ⟨["macros"], "Tools"⟩

def same : Reference := ⟨tools, "same"⟩

def build : Reference := ⟨tools, "build"⟩

def gather : Reference := ⟨tools, "gather"⟩

def templates : Entries Path ModuleDef :=
  let first : TyParam := ⟨"e", false, .macroExpr⟩
  let macroClass := { ClassDef.empty tools tools with
    statics := [.method "same" (.func [first] .macroExpr) none,
      .method "build" (.func [] (.array .macroField)) none,
      .method "gather" (.func [first, ⟨"rest", false, .array .macroExpr⟩] .macroExpr) none] }
  [(tools, ⟨tools, [.classType macroClass]⟩)]

/-- With `reverse`, arguments are matched with the parameters from the end. -/
def starting (reverse : Bool) : EngineState Unit Checker Host :=
  ⟨.new, .new .default .new ⟨[], "Main"⟩,
    ⟨[], ⟨.new (Registry.bootstrapTemplates ++ templates) ⟨[], [], reverse, none⟩, []⟩⟩⟩

def start : EngineState Unit Checker Host := starting false

def runtime (answer : List Value → Option Value) : Runtime Unit Checker Host where
  create _ := ()
  init := pure ()
  reuse := pure ()
  callByPath _ _ values := pure (answer values)
  callFunction _ values := pure (answer values)
  evalExpr _ := pure none

def pos : Position := ⟨0, 5, 12⟩

def given : Expr :=
  match Expr.parse "f('a', x)" .null with
  | .ok e => e
  | .error _ => .null .null

def field : Field := ⟨"x", none, [.pub], .var none (some given), .null, []⟩

theorem parse_given : Expr.parse "f('a', x)" .null = .ok given := by
  have hok : (Expr.parse "f('a', x)" .null).isOk = true := by decide +kernel
  unfold given
  cases hparse : Expr.parse "f('a', x)" .null with
  | ok e => rfl
  | error e =>
    rw [hparse] at hok
    cases hok

section Calls

variable (t : Typer Checker Host) (answer : List Value → Option Value) (mode : CallMode)
  (r : Reference) (args : List Expr) (s : EngineState Unit Checker Host)

def preparing : Except Fault PreparedCall × EngineState Unit Checker Host :=
  (EngineM.prepare t (runtime answer) mode r args pos).run (s.selecting .macros)

theorem exists_executes (p : PreparedCall → Bool)
    (hcall : (preparing t answer mode r args s).1.toOption.any p = true)
    (hlive : (preparing t answer mode r args s).2.engine.isLive = true) :
    ∃ call, p call = true ∧ EngineM.Prepared args pos call ∧
      EngineM.Executes t (runtime answer) mode r args pos s call (.ok (answer call.values)) := by
  cases hprepare : (preparing t answer mode r args s).1 with
  | error fault =>
    rw [hprepare] at hcall
    cases hcall
  | ok call =>
    rw [hprepare] at hcall
    have hrun : preparing t answer mode r args s = (.ok call, _) := Prod.ext hprepare rfl
    obtain ⟨live, hruntime, hhealthy⟩ := Engine.exists_of_isLive hlive
    exact ⟨call, hcall, EngineM.prepared_of_prepare hrun, .intro hrun hruntime hhealthy rfl⟩

end Calls

def isFirst : MatchedArg → Bool
  | .supplied index _ => index == 0
  | .omitted => false

def takesFirst (i : Nat) (call : PreparedCall) : Bool :=
  call.collectedAt? != some 0 && call.classes[i]? == some .expression &&
    call.matched[i]?.any isFirst

theorem given?_of_takesFirst {i : Nat} {e : Expr} {es : List Expr} {call : PreparedCall}
    (hcall : EngineM.Prepared (e :: es) pos call) (h : takesFirst i call = true) :
    call.collectedAt? ≠ some 0 ∧ call.classes[i]? = some .expression ∧
      call.given? i = some e := by
  simp only [takesFirst, Bool.and_eq_true, bne_iff_ne, beq_iff_eq] at h
  obtain ⟨⟨halone, hclass⟩, hmatched⟩ := h
  refine ⟨halone, hclass, ?_⟩
  have hfixed : call.args.fixed[0]? = some e := by
    rw [PreparedCall.collectedAt?, hcall.args] at halone
    rw [hcall.args]
    exact CallArgs.fixed_split_zero halone
  unfold PreparedCall.given?
  rcases hfirst : call.matched[i]? with _ | ⟨index, typed⟩ | _ <;> rw [hfirst] at hmatched
  · cases hmatched
  · obtain rfl : index = 0 := eq_of_beq hmatched
    dsimp only
    rw [hfixed, Option.getD_some]
  · cases hmatched

theorem executes_same : ∃ call v,
    EngineM.Executes Checker.typer (runtime List.head?) .expr same [given] pos start call
      (.ok (some v)) ∧
    call.classes[0]? = some .expression ∧ call.given? 0 = some given ∧
    call.collectedAt? ≠ some 0 ∧ call.values[0]? = some v := by
  obtain ⟨call, htakes, hcall, hexec⟩ := exists_executes Checker.typer List.head? .expr same
    [given] start (takesFirst 0) (by decide +kernel) (by decide +kernel)
  obtain ⟨halone, hclass, hgiven⟩ := given?_of_takesFirst hcall htakes
  have hvalue := hexec.value hclass hgiven halone
  rw [List.head?_eq_getElem?, hvalue] at hexec
  exact ⟨call, given.asArgument, hexec, hclass, hgiven, halone, hvalue⟩

def built : Value := .array ([field].map Encode.field)

theorem executes_build : ∃ call,
    EngineM.Executes Checker.typer (runtime fun _ => some built) .build build [] pos start call
      (.ok (some built)) := by
  obtain ⟨call, -, -, hexec⟩ := exists_executes Checker.typer (fun _ => some built) .build build []
    start (fun _ => true) (by decide +kernel) (by decide +kernel)
  exact ⟨call, hexec⟩

def revised : Expr := given.revise Constant.doubleQuoted (·.orElse pos)

/-- The expression comes back with other quotes and positions, and the field as it is. -/
theorem transparent_same_and_build :
    ((EngineM.invoke Checker.typer (runtime List.head?) .program .expr same [given] pos).run
        start).1 = .ok (.expr revised) ∧
    (revised == ⟨.call ⟨.const (.ident "f"), pos⟩
      [⟨.const (.string "a" .double), pos⟩, ⟨.const (.ident "x"), pos⟩], pos⟩) = true ∧
    ((EngineM.invoke Checker.typer (runtime fun _ => some built) .program .build build [] pos).run
      start).1 = .ok (.fields [field]) := by
  obtain ⟨call, v, hexec, hclass, hgiven, halone, hvalue⟩ := executes_same
  obtain ⟨call', hexec'⟩ := executes_build
  refine ⟨?_, by decide +kernel, ?_⟩
  · exact (EngineM.identity_transparent Checker.typer (runtime List.head?) same [given] pos
      start).1 _ _ _ _ _ _ parse_given hexec hclass hgiven halone hvalue
  · exact (EngineM.identity_transparent Checker.typer (runtime fun _ => some built) build [] pos
      start).2 call' [field] hexec'

/-! ### Collected arguments -/

def accepting : Typer Checker Host := { Checker.typer with unify := fun _ _ => pure () }

def second (values : List Value) : Option Value := values[1]?

def message? : Except Fault CallResult → Option String
  | .error (.error e) => some e.message
  | _ => none

/-- The type checker takes the array for an expression and matches the first argument with it. What
the macro is given in its place is the array of the further arguments, which it cannot give back. -/
theorem collected_not_transparent : ∃ call v,
    Expr.parse "f('a', x)" .null = .ok given ∧
    EngineM.Executes accepting (runtime second) .expr gather [given, .null .null] pos
      (starting true) call (.ok (some v)) ∧
    call.classes[1]? = some .expression ∧ call.given? 1 = some given ∧ call.values[1]? = some v ∧
    message? ((EngineM.invoke accepting (runtime second) .program .expr gather
      [given, .null .null] pos).run (starting true)).1 =
        some "Invalid Expr value: at <root>: expected Expr, found Array (see dump/decoding_error.txt)" := by
  obtain ⟨call, hcall, hprepared, hexec⟩ := exists_executes accepting second .expr gather
    [given, .null .null] (starting true)
    (fun call => takesFirst 1 call && (second call.values).isSome)
    (by decide +kernel) (by decide +kernel)
  obtain ⟨htakes, hvalue⟩ := Bool.and_eq_true_iff.mp hcall
  obtain ⟨-, hclass, hgiven⟩ := given?_of_takesFirst hprepared htakes
  obtain ⟨v, hv⟩ := Option.isSome_iff_exists.mp hvalue
  rw [hv] at hexec
  exact ⟨call, v, parse_given, hexec, hclass, hgiven, hv, by decide +kernel⟩

end Echo

end HaxeMacro
