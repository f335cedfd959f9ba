import HaxeMacro.Proofs.Codec.Diagnosis
import HaxeMacro.Proofs.Codec.RoundTrip
import HaxeMacro.Proofs.Codec.Standard

/-! # Encoding after decoding

A reader accepts exactly the values that have a standard form, and what it makes of such a value is
encoded as that form.
-/

namespace HaxeMacro

open Reading

variable {α β : Type}

/-! ## The encoders -/

/-- The value of what a value of the kind stands for. -/
def Kind.encode : (k : Kind) → k.Result → Value
  | expr, e => Encode.expr e
  | exprKind, k => Encode.exprKind k
  | constant, c => Encode.constant c
  | quotes, q => Encode.quotes q
  | binaryOp, op => Encode.binaryOp op
  | unaryOp, op => Encode.unaryOp op
  | objectField, f => Encode.objectField f
  | quoteStatus, q => Encode.quoteStatus q
  | var, v => Encode.var v
  | functionKind, k => Encode.functionKind k
  | param, p => Encode.param p
  | functionDef, f => Encode.functionDef f
  | typeParamDecl, d => Encode.typeParamDecl d
  | metadata, m => Encode.metadata m
  | typePath, p => Encode.typePath p
  | typeArg, a => Encode.typeArg a
  | complexType, t => Encode.complexType t
  | access, a => Encode.access a
  | fieldKind, k => Encode.fieldKind k
  | fieldDecl, f => Encode.field f
  | typeDefKind, k => Encode.typeDefKind k
  | typeDefinition, d => Encode.typeDefinition d
  | path, p => Encode.path p
  | type, t => Encode.type t
  | tyParam, p => Encode.tyParam p
  | anonType, fs => .object [("fields", .array (Encode.anonFields fs))]
  | anonField, f => Encode.anonField f
  | position, p => Encode.position p
  | file, n => if n = Position.noFile then .int (-1) else Encode.word n
  | offset, n => Encode.word n
  | string, s => .string s
  | bool, b => .bool b
  | flag, b => .bool b
  | int, i => Encode.word i.toUInt64.toUInt32
  | array item, as => Encode.list item.encode as
  | arrayOrNull item, as => Encode.list item.encode as
  | optional k, a? => Encode.option k.encode a?

/-! ## Readings that come to a known value -/

/-- Wherever the reading starts, it has a result exactly if there is the value `v?`, and then its
result is encoded as that value. -/
def Restores (x : Reading α) (encode : α → Value) (v? : Option Value) : Prop :=
  ∀ w, (x w).1.map encode = v?

/-- Wherever the reading starts, it has a result exactly if all the parts have a standard form, and
`P` then holds of its result and these forms. -/
def Builds (x : Reading α) (parts : List Part) (P : α → List Value → Prop) : Prop :=
  ∀ w, Option.Rel P (x w).1 (parts.mapM Part.standard?)

namespace Restores

variable {encode : α → Value}

theorem ok {a : α} {v : Value} (h : encode a = v) : Restores (Reading.ok a) encode (some v) :=
  fun _ => congrArg some h

theorem mismatch {expected found : String} :
    Restores (Reading.mismatch expected found : Reading α) encode none :=
  fun _ => rfl

theorem under {x : Reading α} {v? : Option Value} (h : Restores x encode v?) (step : Step) :
    Restores (x.under step) encode v? :=
  fun w => h (w.enter step)

end Restores

/-! ## Parts in a row -/

namespace Builds

variable {encode : α → Value} {ps qs : List Part} {p : Part}

theorem ok {a : α} {P : α → List Value → Prop} (h : P a []) : Builds (ok a) [] P :=
  fun _ => .some h

theorem of_restores {x : Reading α} (h : Restores x encode p.standard?) :
    Builds x [p] fun a vs => [encode a] = vs := by
  intro w
  rw [List.mapM_cons, ← h w]
  cases (x w).1 with
  | none => exact .none
  | some a => exact .some rfl

theorem mono {x : Reading α} {P Q : α → List Value → Prop} (h : Builds x ps P)
    (hPQ : ∀ a vs, P a vs → Q a vs) : Builds x ps Q := by
  intro w
  have hw := h w
  generalize (x w).1 = a? at hw ⊢
  generalize ps.mapM Part.standard? = vs? at hw ⊢
  cases hw with
  | none => exact .none
  | some hP => exact .some (hPQ _ _ hP)

theorem ap {f : Reading (α → β)} {x : Reading α} {P : α → List Value → Prop}
    {Q : β → List Value → Prop} (hf : Builds f ps fun g vs => ∀ a us, P a us → Q (g a) (vs ++ us))
    (hx : Builds x qs P) : Builds (f <*> x) (ps ++ qs) Q := by
  intro w
  have hfw := hf w
  have hxw := hx (f w).2
  change Option.Rel Q ((f w).1.bind fun g => (x (f w).2).1.map g) _
  rw [List.mapM_append]
  generalize (f w).1 = g? at hfw ⊢
  generalize (x (f w).2).1 = a? at hxw ⊢
  generalize ps.mapM Part.standard? = vs? at hfw ⊢
  generalize qs.mapM Part.standard? = us? at hxw ⊢
  cases hfw with
  | none => exact .none
  | some hQ =>
    cases hxw with
    | none => exact .none
    | some hP => exact .some (hQ _ _ hP)

theorem next {f : Reading (α → β)} {x : Reading α} {P : β → List Value → Prop}
    (hf : Builds f ps fun g vs => ∀ a, P (g a) (vs ++ [encode a]))
    (hx : Restores x encode p.standard?) : Builds (f <*> x) (ps ++ [p]) P := by
  refine Builds.ap (hf.mono ?_) (of_restores hx)
  rintro g vs hg a _ rfl
  exact hg a

/-- What is built from all parts of a value is encoded as the form that is built from theirs. -/
theorem restores {x : Reading α} {build : List Value → Value}
    (h : Builds x ps fun a vs => encode a = build vs) :
    Restores x encode ((ps.mapM Part.standard?).map build) := by
  intro w
  have hw := h w
  generalize (x w).1 = a? at hw ⊢
  generalize ps.mapM Part.standard? = vs? at hw ⊢
  cases hw with
  | none => rfl
  | some hvs => exact congrArg some hvs

end Builds

theorem Restores.first {encode : α → Value} {p : Part} {x : Reading α}
    (h : Restores x encode p.standard?) (f : α → β) {P : β → List Value → Prop}
    (hf : ∀ a, P (f a) [encode a]) :
    Builds (f <$> x) [p] P := by
  have hok : Builds (Reading.ok f) [] fun g vs => ∀ a us, [encode a] = us → P (g a) (vs ++ us) := by
    refine .ok ?_
    rintro a _ rfl
    exact hf a
  exact hok.ap (Builds.of_restores h)

/-! ## The parts of a value -/

/-- The readers of level `n` restore everything that is nested less deep than `v`. -/
def PartsRestored (n : Nat) (v : Value) : Prop :=
  ∀ w, w.depth < v.depth → ∀ k : Kind, Restores (k.read n w) k.encode (k.standard? w)

namespace PartsRestored

variable {n : Nat}

theorem field {given : Fields} (h : PartsRestored n (.object given)) (name : String) (k : Kind) :
    Restores (Decode.field given name (k.read n)) k.encode
      (Part.standard? ⟨.field name, k, some (Fields.get given name)⟩) :=
  (h _ (Value.depth_field_lt given name) k).under _

variable {t c : String} {index : Nat} {args : List Value}

theorem arg (h : PartsRestored n (.enum t c index args)) (i : Nat) (k : Kind) :
    Restores (Decode.arg c args i (k.read n)) k.encode
      (Part.standard? ⟨.arg c i, k, args[i]?⟩) := by
  rw [Decode.arg]
  cases hi : args[i]? with
  | none => exact Restores.mismatch.under _
  | some v =>
    have hv : v.depth < (Value.enum t c index args).depth :=
      Value.depth_arg_lt (List.mem_of_getElem? hi)
    exact (h v hv k).under _

theorem lastArg (h : PartsRestored n (.enum t c index args)) (i : Nat) (k : Kind) :
    Restores (Decode.lastArg c args i (k.read n)) k.encode
      (Part.standard? ⟨.arg c i, k, some (args[i]?.getD .null)⟩) := by
  refine (h _ ?_ k).under _
  cases hi : args[i]? with
  | none => exact Value.depth_null_lt_enum t c index args
  | some v => exact Value.depth_arg_lt (List.mem_of_getElem? hi)

theorem itemsFrom {item : Kind} (i : Nat) {items : List Value}
    (h : ∀ v ∈ items, Restores (item.read n v) item.encode (item.standard? v)) :
    Builds (Decode.itemsFrom (item.read n) i items) (itemParts item i items)
      fun as vs => as.map item.encode = vs := by
  induction items generalizing i with
  | nil => exact .ok rfl
  | cons v vs ih =>
    have hv := (h v List.mem_cons_self).under (.item i)
    have hvs := ih (i + 1) fun w hw => h w (List.mem_cons_of_mem _ hw)
    refine Builds.ap (hv.first List.cons ?_) hvs
    rintro a as _ rfl
    rfl

end PartsRestored

/-! ## Values of a shape -/

theorem Kind.standard?_of_strict {k : Kind} (hk : k.acceptsNull = false) (v : Value) :
    k.standard? v = k.standardOf v (k.shape.inspect v) := by
  rw [standard?_eq, inspect_of_strict hk]

theorem restores_object {n : Nat} {v : Value} {k : Kind} {expected : String}
    {fields : List (String × Kind)} {read : Fields → Reading α} {encode : α → Value}
    (hk : k.shape = .object expected fields) (h : PartsRestored n v)
    (hread : ∀ given, PartsRestored n (.object given) →
      Builds (read given) (fields.map (fieldPart given))
        fun a vs => encode a = .object ((fields.map Prod.fst).zip vs)) :
    Restores (Decode.object expected read v) encode (k.standardOf v (k.shape.inspect v)) := by
  rw [hk]
  cases v with
  | object given =>
    have hbuild : k.rebuild (.object given) = fun vs => .object ((fields.map Prod.fst).zip vs) := by
      funext vs
      simp only [Kind.rebuild, hk]
    rw [Shape.inspect, Kind.standardOf, hbuild]
    exact (hread given h).restores
  | _ => exact Restores.mismatch

theorem restores_array {n : Nat} {v : Value} {k item : Kind} (hk : k.shape = .array item)
    (h : PartsRestored n v) :
    Restores (Decode.array (item.read n) v) (Encode.list item.encode)
      (k.standardOf v (k.shape.inspect v)) := by
  rw [hk]
  cases v with
  | array items =>
    have hbuild : k.rebuild (.array items) = Value.array := by
      funext vs
      simp only [Kind.rebuild, hk]
    have hitems := PartsRestored.itemsFrom 0 fun w hw => h w (Value.depth_item_lt hw) item
    rw [Shape.inspect, Kind.standardOf, hbuild]
    refine Builds.restores (hitems.mono ?_)
    rintro as _ rfl
    rfl
  | _ => exact Restores.mismatch

theorem restores_enum {n : Nat} {v : Value} {k : Kind} {type : String}
    {slots? : String → Option (List Slot)} {read : String → List Value → Reading α}
    {encode : α → Value} (hk : k.shape = .enum type slots?) (h : PartsRestored n v)
    (hread : ∀ c index args, PartsRestored n (.enum type c index args) →
      Restores (read c args) encode
        (match slots? c with
          | some slots =>
            ((Slot.parts c args 0 slots).mapM Part.standard?).map (standardEnum type c)
          | none => none)) :
    Restores (Decode.enumOf type read v) encode (k.standardOf v (k.shape.inspect v)) := by
  rw [hk]
  cases v with
  | enum t c index args =>
    by_cases ht : t = type
    · subst ht
      have hbuild : k.rebuild (.enum t c index args) = standardEnum t c := by
        funext vs
        simp only [Kind.rebuild, hk]
      have hc := hread c index args h
      simp only [Decode.enumOf, Shape.inspect]
      cases hs : slots? c <;> simpa [Kind.standardOf, hbuild, hs] using hc
    · simp only [Decode.enumOf, Shape.inspect, if_neg ht]
      exact Restores.mismatch
  | _ => exact Restores.mismatch

theorem restores_orDefault {k : Kind} {d : α} {read : Decoder α} {encode : α → Value} {v : Value}
    (hk : k.acceptsNull = true) (hd : encode d = k.absent)
    (hread : Restores (read v) encode (k.standardOf v (k.shape.inspect v))) :
    Restores (Decode.orDefault d read v) encode (k.standard? v) := by
  by_cases hv : v = .null
  · subst hv
    rw [Kind.standard?_null hk]
    exact .ok hd
  · have horDefault : Decode.orDefault d read v = read v := by
      cases v <;> first | rfl | exact absurd rfl hv
    rw [Kind.standard?_eq, Kind.inspect_of_ne_null k hv, horDefault]
    exact hread

/-! ## One more level -/

theorem Encode.binaryOp_of_plainOp? {c : String} {op : BinaryOp} (h : Decode.plainOp? c = some op) :
    binaryOp op = standardEnum "Binop" c [] := by
  unfold Decode.plainOp? at h
  split at h <;> cases h <;> rfl

namespace PartsRestored

variable {n : Nat} {v : Value}

theorem expr (h : PartsRestored n v) :
    Restores (Decode.expr (n + 1) v) Encode.expr (Kind.expr.standard? v) := by
  rw [Kind.standard?_of_strict rfl]
  refine restores_object rfl h fun given h => ?_
  exact ((h.field _ .exprKind).first _ fun _ _ => rfl).next (h.field _ .position)

theorem exprKind (h : PartsRestored n v) :
    Restores (Decode.exprKind (n + 1) v) Encode.exprKind (Kind.exprKind.standard? v) := by
  rw [Kind.standard?_of_strict rfl]
  refine restores_enum rfl h fun c index args h => ?_
  split <;> simp only [Kind.exprSlots?]
  · exact ((h.arg 0 .constant).first _ (by intro; rfl)).restores
  · exact (((h.arg 0 .expr).first _ fun _ _ => rfl).next (h.arg 1 .expr)).restores
  · exact ((((h.arg 0 .binaryOp).first _ fun _ _ _ => rfl).next (h.arg 1 .expr)).next
      (h.arg 2 .expr)).restores
  · exact (((h.arg 0 .expr).first _ fun _ _ => rfl).next (h.arg 1 .string)).restores
  · exact ((h.arg 0 .expr).first _ (by intro; rfl)).restores
  · refine ((h.arg 0 (.array .objectField)).first _ fun fs => ?_).restores
    rw [Encode.exprKind, Encode.objectFields_eq_map]
    rfl
  · refine ((h.arg 0 (.array .expr)).first _ fun es => ?_).restores
    rw [Encode.exprKind, Encode.exprs_eq_map]
    rfl
  · refine (((h.arg 0 .expr).first _ fun e es => ?_).next (h.arg 1 (.array .expr))).restores
    rw [Encode.exprKind, Encode.exprs_eq_map]
    rfl
  · refine (((h.arg 0 .typePath).first _ fun p es => ?_).next (h.arg 1 (.array .expr))).restores
    rw [Encode.exprKind, Encode.exprs_eq_map]
    rfl
  · exact ((((h.arg 0 .unaryOp).first _ fun _ _ _ => rfl).next (h.arg 1 .bool)).next
      (h.arg 2 .expr)).restores
  · refine ((h.arg 0 (.array .var)).first _ fun vs => ?_).restores
    rw [Encode.exprKind, Encode.vars_eq_map]
    rfl
  · exact (((h.arg 0 .functionKind).first _ fun _ _ => rfl).next (h.arg 1 .functionDef)).restores
  · refine ((h.arg 0 (.array .expr)).first _ fun es => ?_).restores
    rw [Encode.exprKind, Encode.exprs_eq_map]
    rfl
  · exact (((h.arg 0 .expr).first _ fun _ _ => rfl).next (h.arg 1 .expr)).restores
  · refine ((((h.arg 0 .expr).first _ fun a b e? => ?_).next (h.arg 1 .expr)).next
      (h.arg 2 (.optional .expr))).restores
    rw [Encode.exprKind, Encode.optionExpr_eq_option]
    rfl
  · exact ((((h.arg 0 .expr).first _ fun _ _ _ => rfl).next (h.arg 1 .expr)).next
      (h.arg 2 .bool)).restores
  · refine ((h.lastArg 0 (.optional .expr)).first _ fun e? => ?_).restores
    rw [Encode.exprKind, Encode.optionExpr_eq_option]
    rfl
  · exact Restores.ok rfl
  · exact Restores.ok rfl
  · exact ((h.arg 0 .expr).first _ (by intro; rfl)).restores
  · exact ((h.arg 0 .expr).first _ (by intro; rfl)).restores
  · refine (((h.arg 0 .expr).first _ fun e t? => ?_).next
      (h.lastArg 1 (.optional .complexType))).restores
    rw [Encode.exprKind, Encode.optionType_eq_option]
    rfl
  · exact ((((h.arg 0 .expr).first _ fun _ _ _ => rfl).next (h.arg 1 .expr)).next
      (h.arg 2 .expr)).restores
  · exact (((h.arg 0 .expr).first _ fun _ _ => rfl).next (h.arg 1 .complexType)).restores
  · exact (((h.arg 0 .metadata).first _ fun _ _ => rfl).next (h.arg 1 .expr)).restores
  · exact Restores.mismatch

theorem objectField (h : PartsRestored n v) :
    Restores (Decode.objectField (n + 1) v) Encode.objectField (Kind.objectField.standard? v) := by
  rw [Kind.standard?_of_strict rfl]
  refine restores_object rfl h fun given h => ?_
  exact (((h.field _ .string).first _ fun _ _ _ => rfl).next (h.field _ .expr)).next
    (h.field _ .quoteStatus)

theorem var (h : PartsRestored n v) :
    Restores (Decode.var (n + 1) v) Encode.var (Kind.var.standard? v) := by
  rw [Kind.standard?_of_strict rfl]
  refine restores_object rfl h fun given h => ?_
  refine ((((((h.field _ .string).first _ fun name t? e? isFinal isStatic ms => ?_).next
    (h.field _ (.optional .complexType))).next (h.field _ (.optional .expr))).next
    (h.field _ .flag)).next (h.field _ .flag)).next (h.field _ (.arrayOrNull .metadata))
  rw [Encode.var, Encode.optionType_eq_option, Encode.optionExpr_eq_option,
    Encode.metadatas_eq_map]
  rfl

theorem param (h : PartsRestored n v) :
    Restores (Decode.param (n + 1) v) Encode.param (Kind.param.standard? v) := by
  rw [Kind.standard?_of_strict rfl]
  refine restores_object rfl h fun given h => ?_
  refine (((((h.field _ .string).first _ fun name opt t? e? ms => ?_).next
    (h.field _ .flag)).next (h.field _ (.optional .complexType))).next
    (h.field _ (.optional .expr))).next (h.field _ (.arrayOrNull .metadata))
  rw [Encode.param, Encode.optionType_eq_option, Encode.optionExpr_eq_option,
    Encode.metadatas_eq_map]
  rfl

theorem functionDef (h : PartsRestored n v) :
    Restores (Decode.functionDef (n + 1) v) Encode.functionDef (Kind.functionDef.standard? v) := by
  rw [Kind.standard?_of_strict rfl]
  refine restores_object rfl h fun given h => ?_
  refine ((((h.field _ (.array .param)).first _ fun ps t? e? ds => ?_).next
    (h.field _ (.optional .complexType))).next (h.field _ (.optional .expr))).next
    (h.field _ (.arrayOrNull .typeParamDecl))
  rw [Encode.functionDef, Encode.params_eq_map, Encode.optionType_eq_option,
    Encode.optionExpr_eq_option, Encode.typeParamDecls_eq_map]
  rfl

theorem typeParamDecl (h : PartsRestored n v) :
    Restores (Decode.typeParamDecl (n + 1) v) Encode.typeParamDecl
      (Kind.typeParamDecl.standard? v) := by
  rw [Kind.standard?_of_strict rfl]
  refine restores_object rfl h fun given h => ?_
  refine ((((h.field _ .string).first _ fun name ts ds ms => ?_).next
    (h.field _ (.arrayOrNull .complexType))).next (h.field _ (.arrayOrNull .typeParamDecl))).next
    (h.field _ (.arrayOrNull .metadata))
  rw [Encode.typeParamDecl, Encode.complexTypes_eq_map, Encode.typeParamDecls_eq_map,
    Encode.metadatas_eq_map]
  rfl

theorem metadata (h : PartsRestored n v) :
    Restores (Decode.metadata (n + 1) v) Encode.metadata (Kind.metadata.standard? v) := by
  rw [Kind.standard?_of_strict rfl]
  refine restores_object rfl h fun given h => ?_
  refine (((h.field _ .string).first _ fun name es pos => ?_).next
    (h.field _ (.arrayOrNull .expr))).next (h.field _ .position)
  rw [Encode.metadata, Encode.exprs_eq_map]
  rfl

theorem typePath (h : PartsRestored n v) :
    Restores (Decode.typePath (n + 1) v) Encode.typePath (Kind.typePath.standard? v) := by
  rw [Kind.standard?_of_strict rfl]
  refine restores_object rfl h fun given h => ?_
  refine ((((h.field _ (.array .string)).first _ fun pack name as sub? => ?_).next
    (h.field _ .string)).next (h.field _ (.arrayOrNull .typeArg))).next
    (h.field _ (.optional .string))
  rw [Encode.typePath, Encode.typeArgs_eq_map]
  rfl

theorem fieldDecl (h : PartsRestored n v) :
    Restores (Decode.fieldDecl (n + 1) v) Encode.field (Kind.fieldDecl.standard? v) := by
  rw [Kind.standard?_of_strict rfl]
  refine restores_object rfl h fun given h => ?_
  refine ((((((h.field _ .string).first _ fun name doc as k pos ms => ?_).next
    (h.field _ (.optional .string))).next (h.field _ (.arrayOrNull .access))).next
    (h.field _ .fieldKind)).next (h.field _ .position)).next (h.field _ (.arrayOrNull .metadata))
  rw [Encode.field, Encode.metadatas_eq_map]
  rfl

theorem typeDefinition (h : PartsRestored n v) :
    Restores (Decode.typeDefinition n v) Encode.typeDefinition
      (Kind.typeDefinition.standard? v) := by
  rw [Kind.standard?_of_strict rfl]
  refine restores_object rfl h fun given h => ?_
  refine ((((((((h.field _ (.array .string)).first _ fun pack name pos ms ds ext k fs => ?_).next
    (h.field _ .string)).next (h.field _ .position)).next
    (h.field _ (.arrayOrNull .metadata))).next (h.field _ (.arrayOrNull .typeParamDecl))).next
    (h.field _ .flag)).next (h.field _ .typeDefKind)).next (h.field _ (.array .fieldDecl))
  rw [Encode.typeDefinition, Encode.metadatas_eq_map, Encode.typeParamDecls_eq_map,
    Encode.fieldValues_eq_map]
  rfl

theorem path (h : PartsRestored n v) :
    Restores (Decode.path v) Encode.path (Kind.path.standard? v) := by
  rw [Kind.standard?_of_strict rfl]
  refine restores_object rfl h fun given h => ?_
  exact ((h.field _ (.array .string)).first _ fun _ _ => rfl).next (h.field _ .string)

theorem tyParam (h : PartsRestored n v) :
    Restores (Decode.tyParam (n + 1) v) Encode.tyParam (Kind.tyParam.standard? v) := by
  rw [Kind.standard?_of_strict rfl]
  refine restores_object rfl h fun given h => ?_
  exact (((h.field _ .string).first _ fun _ _ _ => rfl).next (h.field _ .flag)).next
    (h.field _ .type)

theorem anonType (h : PartsRestored n v) :
    Restores (Kind.read n .anonType v) Kind.anonType.encode (Kind.anonType.standard? v) := by
  rw [Kind.standard?_of_strict rfl]
  refine restores_object rfl h fun given h => ?_
  refine (Builds.of_restores (h.field "fields" (.array .anonField))).mono ?_
  rintro fs _ rfl
  rw [Kind.encode, Encode.anonFields_eq_map]
  rfl

theorem anonField (h : PartsRestored n v) :
    Restores (Decode.anonField (n + 1) v) Encode.anonField (Kind.anonField.standard? v) := by
  rw [Kind.standard?_of_strict rfl]
  refine restores_object rfl h fun given h => ?_
  exact ((h.field _ .string).first _ fun _ _ => rfl).next (h.field _ .type)

theorem typeArg (h : PartsRestored n v) :
    Restores (Decode.typeArg (n + 1) v) Encode.typeArg (Kind.typeArg.standard? v) := by
  rw [Kind.standard?_of_strict rfl]
  refine restores_enum rfl h fun c index args h => ?_
  split <;> simp only [Kind.typeArgSlots?]
  · exact ((h.arg 0 .complexType).first _ (by intro; rfl)).restores
  · exact ((h.arg 0 .expr).first _ (by intro; rfl)).restores
  · exact Restores.mismatch

theorem complexType (h : PartsRestored n v) :
    Restores (Decode.complexType (n + 1) v) Encode.complexType (Kind.complexType.standard? v) := by
  rw [Kind.standard?_of_strict rfl]
  refine restores_enum rfl h fun c index args h => ?_
  split <;> simp only [Kind.complexTypeSlots?]
  · exact ((h.arg 0 .typePath).first _ (by intro; rfl)).restores
  · refine (((h.arg 0 (.array .complexType)).first _ fun ts t => ?_).next
      (h.arg 1 .complexType)).restores
    rw [Encode.complexType, Encode.complexTypes_eq_map]
    rfl
  · refine ((h.arg 0 (.array .fieldDecl)).first _ fun fs => ?_).restores
    rw [Encode.complexType, Encode.fieldValues_eq_map]
    rfl
  · exact ((h.arg 0 .complexType).first _ (by intro; rfl)).restores
  · exact ((h.arg 0 .complexType).first _ (by intro; rfl)).restores
  · exact (((h.arg 0 .string).first _ fun _ _ => rfl).next (h.arg 1 .complexType)).restores
  · exact Restores.mismatch

theorem fieldKind (h : PartsRestored n v) :
    Restores (Decode.fieldKind (n + 1) v) Encode.fieldKind (Kind.fieldKind.standard? v) := by
  rw [Kind.standard?_of_strict rfl]
  refine restores_enum rfl h fun c index args h => ?_
  split <;> simp only [Kind.fieldKindSlots?]
  · refine (((h.lastArg 0 (.optional .complexType)).first _ fun t? e? => ?_).next
      (h.lastArg 1 (.optional .expr))).restores
    rw [Encode.fieldKind, Encode.optionType_eq_option, Encode.optionExpr_eq_option]
    rfl
  · exact ((h.arg 0 .functionDef).first _ (by intro; rfl)).restores
  · refine (((((h.arg 0 .string).first _ fun getter setter t? e? => ?_).next
      (h.arg 1 .string)).next (h.lastArg 2 (.optional .complexType))).next
      (h.lastArg 3 (.optional .expr))).restores
    rw [Encode.fieldKind, Encode.optionType_eq_option, Encode.optionExpr_eq_option]
    rfl
  · exact Restores.mismatch

theorem typeDefKind (h : PartsRestored n v) :
    Restores (Decode.typeDefKind n v) Encode.typeDefKind (Kind.typeDefKind.standard? v) := by
  rw [Kind.standard?_of_strict rfl]
  refine restores_enum rfl h fun c index args h => ?_
  split <;> simp only [Kind.typeDefKindSlots?]
  · exact Restores.ok rfl
  · exact Restores.ok rfl
  · exact ((((h.lastArg 0 (.optional .typePath)).first _ fun _ _ _ => rfl).next
      (h.lastArg 1 (.arrayOrNull .typePath))).next (h.lastArg 2 .flag)).restores
  · exact ((h.arg 0 .complexType).first _ (by intro; rfl)).restores
  · refine ((h.lastArg 0 (.optional .complexType)).first _ fun t? => ?_).restores
    rw [Encode.typeDefKind, Encode.optionType_eq_option]
    rfl
  · exact Restores.mismatch

theorem constant (h : PartsRestored n v) :
    Restores (Decode.constant v) Encode.constant (Kind.constant.standard? v) := by
  rw [Kind.standard?_of_strict rfl]
  refine restores_enum rfl h fun c index args h => ?_
  split <;> simp only [Kind.constantSlots?]
  · exact ((h.arg 0 .string).first _ (by intro; rfl)).restores
  · exact ((h.arg 0 .string).first _ (by intro; rfl)).restores
  · exact (((h.arg 0 .string).first _ fun _ _ => rfl).next (h.lastArg 1 .quotes)).restores
  · exact ((h.arg 0 .string).first _ (by intro; rfl)).restores
  · exact (((h.arg 0 .string).first _ fun _ _ => rfl).next (h.arg 1 .string)).restores
  · exact Restores.mismatch

theorem named {c : String} {index : Nat} {args : List Value}
    (h : PartsRestored n (.enum "Type" c index args)) (make : Path → List Ty → Ty)
    (hmake : ∀ p ts, Encode.type (make p ts) =
      standardEnum "Type" c [Encode.path p, .array (Encode.types ts)]) :
    Restores (make <$> Decode.arg c args 0 Decode.path <*>
        Decode.arg c args 1 (Decode.array (Decode.type n))) Encode.type
      (((Slot.parts c args 0 [Kind.needed .path, Kind.needed (.array .type)]).mapM
        Part.standard?).map (standardEnum "Type" c)) := by
  refine (((h.arg 0 .path).first _ fun p ts => ?_).next (h.arg 1 (.array .type))).restores
  rw [hmake, Encode.types_eq_map]
  rfl

theorem type (h : PartsRestored n v) :
    Restores (Decode.type (n + 1) v) Encode.type (Kind.type.standard? v) := by
  rw [Kind.standard?_of_strict rfl]
  refine restores_enum rfl h fun c index args h => ?_
  split <;> simp only [Kind.typeSlots?]
  · exact ((h.arg 0 .int).first _ (by intro; rfl)).restores
  · exact h.named Ty.enum fun _ _ => rfl
  · exact h.named Ty.inst fun _ _ => rfl
  · exact h.named Ty.synonym fun _ _ => rfl
  · exact h.named Ty.abstract fun _ _ => rfl
  · refine (((h.arg 0 (.array .tyParam)).first _ fun ps t => ?_).next (h.arg 1 .type)).restores
    rw [Encode.type, Encode.tyParams_eq_map]
    rfl
  · exact ((h.arg 0 .anonType).first _ (by intro; rfl)).restores
  · exact Restores.ok rfl
  · exact Restores.mismatch

theorem binaryOp (h : PartsRestored n v) :
    Restores (Decode.binaryOp (n + 1) v) Encode.binaryOp (Kind.binaryOp.standard? v) := by
  rw [Kind.standard?_of_strict rfl]
  refine restores_enum rfl h fun c index args h => ?_
  unfold Kind.binaryOpSlots?
  by_cases hc : c = "OpAssignOp"
  · subst hc
    exact ((h.arg 0 .binaryOp).first _ (by intro; rfl)).restores
  · simp only [if_neg hc]
    cases hop : Decode.plainOp? c with
    | some op => exact Restores.ok (Encode.binaryOp_of_plainOp? hop)
    | none => exact Restores.mismatch

theorem unaryOp (h : PartsRestored n v) :
    Restores (Decode.unaryOp v) Encode.unaryOp (Kind.unaryOp.standard? v) := by
  rw [Kind.standard?_of_strict rfl]
  refine restores_enum rfl h fun c index args h => ?_
  split <;> simp only [Kind.unaryOpSlots?]
  all_goals first
    | exact Restores.ok rfl
    | exact Restores.mismatch

theorem access (h : PartsRestored n v) :
    Restores (Decode.access v) Encode.access (Kind.access.standard? v) := by
  rw [Kind.standard?_of_strict rfl]
  refine restores_enum rfl h fun c index args h => ?_
  split <;> simp only [Kind.accessSlots?]
  all_goals first
    | exact Restores.ok rfl
    | exact Restores.mismatch

theorem quotes (h : PartsRestored n v) :
    Restores (Decode.quotes v) Encode.quotes (Kind.quotes.standard? v) := by
  refine restores_orDefault rfl rfl (restores_enum rfl h fun c index args h => ?_)
  split <;> simp only [Kind.quotesSlots?]
  · exact Restores.ok rfl
  · exact Restores.ok rfl
  · exact Restores.mismatch

theorem quoteStatus (h : PartsRestored n v) :
    Restores (Decode.quoteStatus v) Encode.quoteStatus (Kind.quoteStatus.standard? v) := by
  refine restores_orDefault rfl rfl (restores_enum rfl h fun c index args h => ?_)
  split <;> simp only [Kind.quoteStatusSlots?]
  · exact Restores.ok rfl
  · exact Restores.ok rfl
  · exact Restores.mismatch

theorem position (h : PartsRestored n v) :
    Restores (Decode.position v) Encode.position (Kind.position.standard? v) := by
  refine restores_orDefault rfl rfl (restores_object rfl h fun given h => ?_)
  refine (((h.field _ .file).first _ fun file min max => ?_).next (h.field _ .offset)).next
    (h.field _ .offset)
  simp [Encode.position, Position.isNull, Kind.encode]

theorem functionKind (h : PartsRestored n v) :
    Restores (Decode.functionKind v) Encode.functionKind (Kind.functionKind.standard? v) := by
  refine restores_orDefault rfl rfl (restores_enum rfl h fun c index args h => ?_)
  split <;> simp only [Kind.functionKindSlots?]
  · exact Restores.ok rfl
  · exact ((h.arg 0 .string).first _ (by intro; rfl)).restores
  · exact Restores.ok rfl
  · exact Restores.mismatch

end PartsRestored

/-! ## Values without parts -/

theorem restores_string (v : Value) :
    Restores (Decode.string v) Value.string (Kind.string.standard? v) := by
  rw [Kind.standard?_of_strict rfl]
  cases v with
  | string s => exact .ok rfl
  | _ => exact Restores.mismatch

theorem restores_bool (v : Value) :
    Restores (Decode.bool v) Value.bool (Kind.bool.standard? v) := by
  rw [Kind.standard?_of_strict rfl]
  cases v with
  | bool b => exact .ok rfl
  | _ => exact Restores.mismatch

theorem restores_flag (v : Value) :
    Restores (Decode.flag v) Value.bool (Kind.flag.standard? v) := by
  refine restores_orDefault rfl rfl ?_
  cases v with
  | bool b => exact .ok rfl
  | _ => exact Restores.mismatch

theorem restores_int (v : Value) :
    Restores (Decode.int v) Kind.int.encode (Kind.int.standard? v) := by
  rw [Kind.standard?_of_strict rfl]
  cases v with
  | int i => exact .ok (by simp [Kind.encode, Encode.word, Kind.rebuild, Kind.plainForm])
  | _ => exact Restores.mismatch

section Offsets

variable {i : Int64} (h : 0 ≤ i.toInt ∧ i.toInt < 4294967296)

include h

theorem toNat_offset : ((UInt32.ofNat i.toInt.toNat).toNat : Int) = i.toInt := by
  rw [UInt32.toNat_ofNat_of_lt' (by rw [UInt32.size]; omega), Int.toNat_of_nonneg h.1]

/-- An integer that a position can hold is the value of its word. -/
theorem word_of_offset : Encode.word (UInt32.ofNat i.toInt.toNat) = .int i := by
  rw [Encode.word, Value.int.injEq, ← Int64.toInt_inj, toInt_word, toNat_offset h]

theorem noFile_iff : UInt32.ofNat i.toInt.toNat = Position.noFile ↔ i.toInt = 4294967295 := by
  have hnat := toNat_offset h
  rw [← UInt32.toNat_inj, Position.noFile]
  change _ = 4294967295 ↔ _
  omega

end Offsets

theorem restores_offset (v : Value) :
    Restores (Decode.offset v) Encode.word (Kind.offset.standard? v) := by
  rw [Kind.standard?_of_strict rfl]
  cases v with
  | int i =>
    simp only [Kind.shape, Shape.inspect, Kind.checkOffset, Decode.offset]
    by_cases hi : 0 ≤ i.toInt ∧ i.toInt < 4294967296
    · simp only [if_pos hi]
      exact .ok (word_of_offset hi)
    · simp only [if_neg hi]
      exact Restores.mismatch
  | _ => exact Restores.mismatch

theorem restores_file (v : Value) :
    Restores (Decode.file v) Kind.file.encode (Kind.file.standard? v) := by
  rw [Kind.standard?_of_strict rfl]
  cases v with
  | int i =>
    simp only [Kind.shape, Shape.inspect, Kind.checkFile, Kind.checkOffset, Decode.file,
      Decode.offset]
    by_cases hneg : i.toInt < 0
    · simp only [if_pos hneg]
      refine .ok ?_
      simp [Kind.encode, Kind.rebuild, Kind.plainForm, hneg]
    · by_cases hi : 0 ≤ i.toInt ∧ i.toInt < 4294967296
      · simp only [if_neg hneg, if_pos hi]
        refine .ok ?_
        simp only [Kind.encode, Kind.rebuild, Kind.plainForm, hneg, noFile_iff hi,
          word_of_offset hi, false_or]
      · simp only [if_neg hneg, if_neg hi]
        exact Restores.mismatch
  | _ => exact Restores.mismatch

/-! ## All kinds -/

theorem Kind.standard?_optional {v : Value} (hv : v ≠ .null) (k : Kind) :
    (optional k).standard? v = k.standard? v := by
  rw [standard?_eq, standard?_eq, inspect_of_ne_null _ hv, inspect_of_ne_null _ hv]
  change (optional k).standardOf v (k.shape.inspect v) = k.standardOf v (k.shape.inspect v)
  cases k.shape.inspect v with
  | error fault => rfl
  | ok parts => rw [standardOf, standardOf, rebuild_optional hv]

theorem restores_optional {k : Kind} {n : Nat} {v : Value}
    (h : Restores (k.read n v) k.encode (k.standard? v)) :
    Restores (Decode.optional (k.read n) v) (Encode.option k.encode)
      ((Kind.optional k).standard? v) := by
  by_cases hv : v = .null
  · subst hv
    -- A null is read as nothing, and nothing is written as null.
    rw [Kind.standard?_null rfl]
    exact .ok rfl
  · have hread : Decode.optional (k.read n) v = some <$> k.read n v := by
      cases v <;> first | rfl | exact absurd rfl hv
    intro w
    rw [hread, Kind.standard?_optional hv, ← h w]
    exact Option.map_map ..

/-- If the parts are restored, the whole is. Most readers go on to the parts one level further down;
the others stay on their level. -/
theorem PartsRestored.whole {n : Nat} {v : Value} (h : PartsRestored n v)
    (hsame : PartsRestored (n + 1) v) (k : Kind) :
    Restores (k.read (n + 1) v) k.encode (k.standard? v) := by
  induction k with
  | expr => exact h.expr
  | exprKind => exact h.exprKind
  | constant => exact h.constant
  | quotes => exact h.quotes
  | binaryOp => exact h.binaryOp
  | unaryOp => exact h.unaryOp
  | objectField => exact h.objectField
  | quoteStatus => exact h.quoteStatus
  | var => exact h.var
  | functionKind => exact h.functionKind
  | param => exact h.param
  | functionDef => exact h.functionDef
  | typeParamDecl => exact h.typeParamDecl
  | metadata => exact h.metadata
  | typePath => exact h.typePath
  | typeArg => exact h.typeArg
  | complexType => exact h.complexType
  | access => exact h.access
  | fieldKind => exact h.fieldKind
  | fieldDecl => exact h.fieldDecl
  | typeDefKind => exact hsame.typeDefKind
  | typeDefinition => exact hsame.typeDefinition
  | path => exact h.path
  | type => exact h.type
  | tyParam => exact h.tyParam
  | anonType => exact hsame.anonType
  | anonField => exact h.anonField
  | position => exact h.position
  | file => exact restores_file v
  | offset => exact restores_offset v
  | string => exact restores_string v
  | bool => exact restores_bool v
  | flag => exact restores_flag v
  | int => exact restores_int v
  | array item =>
    rw [Kind.standard?_of_strict rfl]
    exact restores_array rfl hsame
  | arrayOrNull item => exact restores_orDefault rfl rfl (restores_array rfl hsame)
  | optional k ih => exact restores_optional ih

/-- A reader with enough levels restores the value. -/
theorem Kind.restores_read {n : Nat} {v : Value} (h : v.depth ≤ n) (k : Kind) :
    Restores (k.read n v) k.encode (k.standard? v) := by
  -- On the depth of the value: all its parts are nested less deep.
  induction hd : v.depth using Nat.strongRecOn generalizing v n k with
  | ind d ih =>
    subst hd
    obtain ⟨m, rfl⟩ : ∃ m, n = m + 1 := ⟨n - 1, by have := Value.one_le_depth v; omega⟩
    have hparts : ∀ l, m ≤ l → PartsRestored l v := by
      intro l hl w hw k
      exact ih w.depth hw (by omega) k rfl
    exact (hparts m (Nat.le_refl m)).whole (hparts (m + 1) (Nat.le_succ m)) k

/-! ## Whole values -/

theorem Notes.result?_verdict {x : Reading α} {ms : List Mismatch} (h : Notes x ms)
    (expected : String) (v : Value) : (x.verdict expected v).result? = (x .start).1 := by
  have hwalk : (x .start).2 = ⟨[], ms⟩ := by simpa [Walk.start] using h.walk_eq .start
  have hresult := h.result .start
  unfold verdict
  rcases hx : x .start with ⟨a?, w⟩
  rw [hx] at hwalk hresult
  subst hwalk
  cases a? with
  | some a =>
    have hms : ms = [] := by simpa using hresult
    rw [hms]
    rfl
  | none => cases ms <;> rfl

namespace Kind

/-- What a value of any kind decodes to is encoded as its standard form; a value that has none does
not decode. -/
theorem encode_decode (k : Kind) (v : Value) :
    (k.decode v).result?.map k.encode = k.standard? v := by
  rw [decode, (notes_read (Nat.le_refl _) k).result?_verdict]
  exact restores_read (Nat.le_refl _) k .start

/-- If the reader gives back what was encoded, no two results have the same value. -/
theorem decode_iff {k : Kind}
    (hreads : ∀ a, k.read (k.encode a).depth (k.encode a) = Reading.ok a) (v : Value)
    (a : k.Result) : k.decode v = .ok a ↔ k.standard? v = some (k.encode a) := by
  have h := k.encode_decode v
  constructor
  · intro hdecode
    rw [← h, hdecode]
    rfl
  · intro hstandard
    rw [hstandard] at h
    cases hdecode : k.decode v with
    | faulty first others =>
      rw [hdecode] at h
      cases h
    | ok b =>
      have hencode : k.encode b = k.encode a := by
        rw [hdecode] at h
        exact Option.some.inj h
      have hok : (Reading.ok b : Reading k.Result) = Reading.ok a := by
        rw [← hreads b, ← hreads a, hencode]
      have hba : some b = some a := congrArg Prod.fst (congrFun hok .start)
      rw [Option.some.inj hba]

end Kind

/-- A value decodes to a fragment exactly if its standard form is the value of the fragment. -/
theorem decode_eq_ok_iff_standard (v : Value) :
    (∀ e, v.decodeExpr = .ok e ↔ Kind.expr.standard? v = some (Encode.expr e)) ∧
    (∀ f, v.decodeField = .ok f ↔ Kind.fieldDecl.standard? v = some (Encode.field f)) ∧
    (∀ t, v.decodeComplexType = .ok t ↔
      Kind.complexType.standard? v = some (Encode.complexType t)) ∧
    (∀ d, v.decodeTypeDefinition = .ok d ↔
      Kind.typeDefinition.standard? v = some (Encode.typeDefinition d)) ∧
    (∀ m, v.decodeMetadata = .ok m ↔ Kind.metadata.standard? v = some (Encode.metadata m)) := by
  refine ⟨?_, ?_, ?_, ?_, ?_⟩
  · exact Kind.decode_iff (k := .expr) (fun e => (roundTrips _).expr e (Nat.le_refl _)) v
  · exact Kind.decode_iff (k := .fieldDecl) (fun f => (roundTrips _).fieldDecl f (Nat.le_refl _)) v
  · exact Kind.decode_iff (k := .complexType)
      (fun t => (roundTrips _).complexType t (Nat.le_refl _)) v
  · exact Kind.decode_iff (k := .typeDefinition)
      (fun d => reads_typeDefinition d (Nat.le_succ _)) v
  · exact Kind.decode_iff (k := .metadata) (fun m => (roundTrips _).metadata m (Nat.le_refl _)) v

end HaxeMacro
