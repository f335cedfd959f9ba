import HaxeMacro.Proofs.Codec.Faults

/-! # The readers note the faults of the table

For every kind, the reader notes the faults that the table gives, in the same order.
-/

namespace HaxeMacro

variable {α : Type}

/-! ## What is wrong by an inspection -/

/-- The faults of a value by what its inspection says. -/
def faultsOf : Except (String × String) (List Part) → List Mismatch
  | .error (expected, found) => [⟨[], expected, found⟩]
  | .ok parts => parts.flatMap Part.faults

theorem Kind.faults_eq (k : Kind) (v : Value) : k.faults v = faultsOf (k.inspect v) := by
  rcases h : k.inspect v with ⟨expected, found⟩ | parts
  · exact faults_of_error h
  · exact faults_of_ok h

theorem Kind.inspect_of_ne_null (k : Kind) {v : Value} (hv : v ≠ .null) :
    k.inspect v = k.shape.inspect v := by
  have hnull : v.isNull = false := by
    cases v <;> first | rfl | exact absurd rfl hv
  rw [inspect, hnull, Bool.and_false]
  rfl

theorem Kind.inspect_of_strict {k : Kind} (hk : k.acceptsNull = false) (v : Value) :
    k.inspect v = k.shape.inspect v := by
  rw [inspect, hk]
  rfl

theorem Kind.faults_of_strict {k : Kind} (hk : k.acceptsNull = false) (v : Value) :
    k.faults v = faultsOf (k.shape.inspect v) := by
  rw [faults_eq, inspect_of_strict hk]

/-! ## The parts of a value -/

/-- The readers of level `n` note the faults of everything that is nested less deep than `v`. -/
def PartsNoted (n : Nat) (v : Value) : Prop :=
  ∀ w, w.depth < v.depth → ∀ k : Kind, Notes (k.read n w) (k.faults w)

namespace PartsNoted

variable {n : Nat}

theorem field {given : Fields} (h : PartsNoted n (.object given)) (name : String) (k : Kind) :
    Notes (Decode.field given name (k.read n))
      (Part.faults ⟨.field name, k, some (Fields.get given name)⟩) :=
  Decode.notes_field (h _ (Value.depth_field_lt given name) k)

variable {t c : String} {index : Nat} {args : List Value}

theorem arg (h : PartsNoted n (.enum t c index args)) (i : Nat) (k : Kind) :
    Notes (Decode.arg c args i (k.read n)) (Part.faults ⟨.arg c i, k, args[i]?⟩) := by
  cases hi : args[i]? with
  | none => exact Decode.notes_arg_of_none hi
  | some v =>
    have hv : v.depth < (Value.enum t c index args).depth :=
      Value.depth_arg_lt (List.mem_of_getElem? hi)
    exact Decode.notes_arg_of_some hi (h v hv k)

theorem lastArg (h : PartsNoted n (.enum t c index args)) (i : Nat) (k : Kind) :
    Notes (Decode.lastArg c args i (k.read n))
      (Part.faults ⟨.arg c i, k, some (args[i]?.getD .null)⟩) := by
  refine Decode.notes_lastArg (h _ ?_ k)
  cases hi : args[i]? with
  | none => exact Value.depth_null_lt_enum t c index args
  | some v => exact Value.depth_arg_lt (List.mem_of_getElem? hi)

theorem itemsFrom {item : Kind} (i : Nat) {items : List Value}
    (h : ∀ v ∈ items, Notes (item.read n v) (item.faults v)) :
    Notes (Decode.itemsFrom (item.read n) i items)
      ((itemParts item i items).flatMap Part.faults) := by
  induction items generalizing i with
  | nil => exact Notes.ok []
  | cons v vs ih =>
    have hv := (h v List.mem_cons_self).under (.item i)
    have hvs := ih (i + 1) fun w hw => h w (List.mem_cons_of_mem _ hw)
    exact (hv.map List.cons).ap hvs

theorem array {v : Value} (h : PartsNoted n v) (item : Kind) :
    Notes (Decode.array (item.read n) v) (faultsOf ((Shape.array item).inspect v)) := by
  cases v with
  | array items => exact itemsFrom 0 fun w hw => h w (Value.depth_item_lt hw) item
  | _ => exact Notes.mismatch ..

end PartsNoted

/-! ## Parts in a row -/

namespace Notes

variable {β : Type}

theorem first {x : Reading α} {p : Part} (h : Notes x p.faults) (f : α → β) :
    Notes (f <$> x) ([p].flatMap Part.faults) := by
  rw [List.flatMap_singleton]
  exact h.map f

theorem next {f : Reading (α → β)} {x : Reading α} {ps : List Part} {p : Part}
    (hf : Notes f (ps.flatMap Part.faults)) (hx : Notes x p.faults) :
    Notes (f <*> x) ((ps ++ [p]).flatMap Part.faults) := by
  rw [List.flatMap_append, List.flatMap_singleton]
  exact hf.ap hx

end Notes

/-! ## Values of a shape -/

theorem notes_object {n : Nat} {v : Value} (h : PartsNoted n v) {expected : String}
    {fields : List (String × Kind)} {read : Fields → Reading α}
    (hread : ∀ given, PartsNoted n (.object given) →
      Notes (read given) ((fields.map (fieldPart given)).flatMap Part.faults)) :
    Notes (Decode.object expected read v) (faultsOf ((Shape.object expected fields).inspect v)) := by
  cases v with
  | object given => exact hread given h
  | _ => exact Notes.mismatch ..

theorem notes_enum {n : Nat} {v : Value} (h : PartsNoted n v) {type : String}
    {slots? : String → Option (List Slot)} {read : String → List Value → Reading α}
    (hread : ∀ c index args, PartsNoted n (.enum type c index args) → Notes (read c args)
      (match slots? c with
        | some slots => (Slot.parts c args 0 slots).flatMap Part.faults
        | none => [⟨[], "a " ++ type ++ " constructor", c⟩])) :
    Notes (Decode.enumOf type read v) (faultsOf ((Shape.enum type slots?).inspect v)) := by
  cases v with
  | enum t c index args =>
    by_cases ht : t = type
    · subst ht
      have hc := hread c index args h
      simp only [Decode.enumOf, Shape.inspect]
      cases hs : slots? c <;> simpa [faultsOf, hs] using hc
    · simp only [Decode.enumOf, Shape.inspect, if_neg ht]
      exact Notes.mismatch ..
  | _ => exact Notes.mismatch ..

theorem notes_orDefault {k : Kind} {d : α} {read : Decoder α} {v : Value}
    (hk : k.acceptsNull = true) (hread : Notes (read v) (faultsOf (k.shape.inspect v))) :
    Notes (Decode.orDefault d read v) (k.faults v) := by
  by_cases hv : v = .null
  · subst hv
    have hfaults : k.faults .null = [] := by
      rw [Kind.faults_eq, Kind.inspect, hk]
      rfl
    rw [hfaults]
    exact Notes.ok d
  · rw [Kind.faults_eq, Kind.inspect_of_ne_null k hv]
    have horDefault : Decode.orDefault d read v = read v := by
      cases v <;> first | rfl | exact absurd rfl hv
    rw [horDefault]
    exact hread

/-! ## One more level -/

namespace PartsNoted

variable {n : Nat} {v : Value}

theorem expr (h : PartsNoted n v) : Notes (Decode.expr (n + 1) v) (Kind.expr.faults v) := by
  rw [Kind.faults_of_strict rfl]
  refine notes_object h fun given h => ?_
  exact ((h.field _ .exprKind).first _).next (h.field _ .position)

theorem exprKind (h : PartsNoted n v) :
    Notes (Decode.exprKind (n + 1) v) (Kind.exprKind.faults v) := by
  rw [Kind.faults_of_strict rfl]
  refine notes_enum h fun c index args h => ?_
  split <;> simp only [Kind.exprSlots?]
  · exact (h.arg 0 .constant).first _
  · exact ((h.arg 0 .expr).first _).next (h.arg 1 .expr)
  · exact (((h.arg 0 .binaryOp).first _).next (h.arg 1 .expr)).next (h.arg 2 .expr)
  · exact ((h.arg 0 .expr).first _).next (h.arg 1 .string)
  · exact (h.arg 0 .expr).first _
  · exact (h.arg 0 (.array .objectField)).first _
  · exact (h.arg 0 (.array .expr)).first _
  · exact ((h.arg 0 .expr).first _).next (h.arg 1 (.array .expr))
  · exact ((h.arg 0 .typePath).first _).next (h.arg 1 (.array .expr))
  · exact (((h.arg 0 .unaryOp).first _).next (h.arg 1 .bool)).next (h.arg 2 .expr)
  · exact (h.arg 0 (.array .var)).first _
  · exact ((h.arg 0 .functionKind).first _).next (h.arg 1 .functionDef)
  · exact (h.arg 0 (.array .expr)).first _
  · exact ((h.arg 0 .expr).first _).next (h.arg 1 .expr)
  · exact (((h.arg 0 .expr).first _).next (h.arg 1 .expr)).next (h.arg 2 (.optional .expr))
  · exact (((h.arg 0 .expr).first _).next (h.arg 1 .expr)).next (h.arg 2 .bool)
  · exact (h.lastArg 0 (.optional .expr)).first _
  · exact Notes.ok _
  · exact Notes.ok _
  · exact (h.arg 0 .expr).first _
  · exact (h.arg 0 .expr).first _
  · exact ((h.arg 0 .expr).first _).next (h.lastArg 1 (.optional .complexType))
  · exact (((h.arg 0 .expr).first _).next (h.arg 1 .expr)).next (h.arg 2 .expr)
  · exact ((h.arg 0 .expr).first _).next (h.arg 1 .complexType)
  · exact ((h.arg 0 .metadata).first _).next (h.arg 1 .expr)
  · exact Notes.mismatch ..

theorem objectField (h : PartsNoted n v) :
    Notes (Decode.objectField (n + 1) v) (Kind.objectField.faults v) := by
  rw [Kind.faults_of_strict rfl]
  refine notes_object h fun given h => ?_
  exact (((h.field _ .string).first _).next (h.field _ .expr)).next (h.field _ .quoteStatus)

theorem var (h : PartsNoted n v) :
    Notes (Decode.var (n + 1) v) (Kind.var.faults v) := by
  rw [Kind.faults_of_strict rfl]
  refine notes_object h fun given h => ?_
  exact ((((((h.field _ .string).first _).next (h.field _ (.optional .complexType))).next
    (h.field _ (.optional .expr))).next (h.field _ .flag)).next (h.field _ .flag)).next
    (h.field _ (.arrayOrNull .metadata))

theorem param (h : PartsNoted n v) :
    Notes (Decode.param (n + 1) v) (Kind.param.faults v) := by
  rw [Kind.faults_of_strict rfl]
  refine notes_object h fun given h => ?_
  exact (((((h.field _ .string).first _).next (h.field _ .flag)).next
    (h.field _ (.optional .complexType))).next (h.field _ (.optional .expr))).next
    (h.field _ (.arrayOrNull .metadata))

theorem functionDef (h : PartsNoted n v) :
    Notes (Decode.functionDef (n + 1) v) (Kind.functionDef.faults v) := by
  rw [Kind.faults_of_strict rfl]
  refine notes_object h fun given h => ?_
  exact ((((h.field _ (.array .param)).first _).next (h.field _ (.optional .complexType))).next
    (h.field _ (.optional .expr))).next (h.field _ (.arrayOrNull .typeParamDecl))

theorem typeParamDecl (h : PartsNoted n v) :
    Notes (Decode.typeParamDecl (n + 1) v) (Kind.typeParamDecl.faults v) := by
  rw [Kind.faults_of_strict rfl]
  refine notes_object h fun given h => ?_
  exact ((((h.field _ .string).first _).next (h.field _ (.arrayOrNull .complexType))).next
    (h.field _ (.arrayOrNull .typeParamDecl))).next (h.field _ (.arrayOrNull .metadata))

theorem metadata (h : PartsNoted n v) :
    Notes (Decode.metadata (n + 1) v) (Kind.metadata.faults v) := by
  rw [Kind.faults_of_strict rfl]
  refine notes_object h fun given h => ?_
  exact (((h.field _ .string).first _).next (h.field _ (.arrayOrNull .expr))).next
    (h.field _ .position)

theorem typePath (h : PartsNoted n v) :
    Notes (Decode.typePath (n + 1) v) (Kind.typePath.faults v) := by
  rw [Kind.faults_of_strict rfl]
  refine notes_object h fun given h => ?_
  exact ((((h.field _ (.array .string)).first _).next (h.field _ .string)).next
    (h.field _ (.arrayOrNull .typeArg))).next (h.field _ (.optional .string))

theorem fieldDecl (h : PartsNoted n v) :
    Notes (Decode.fieldDecl (n + 1) v) (Kind.fieldDecl.faults v) := by
  rw [Kind.faults_of_strict rfl]
  refine notes_object h fun given h => ?_
  exact ((((((h.field _ .string).first _).next (h.field _ (.optional .string))).next
    (h.field _ (.arrayOrNull .access))).next (h.field _ .fieldKind)).next
    (h.field _ .position)).next (h.field _ (.arrayOrNull .metadata))

theorem typeDefinition (h : PartsNoted n v) :
    Notes (Decode.typeDefinition n v) (Kind.typeDefinition.faults v) := by
  rw [Kind.faults_of_strict rfl]
  refine notes_object h fun given h => ?_
  exact ((((((((h.field _ (.array .string)).first _).next (h.field _ .string)).next
    (h.field _ .position)).next (h.field _ (.arrayOrNull .metadata))).next
    (h.field _ (.arrayOrNull .typeParamDecl))).next (h.field _ .flag)).next
    (h.field _ .typeDefKind)).next (h.field _ (.array .fieldDecl))

theorem path (h : PartsNoted n v) :
    Notes (Decode.path v) (Kind.path.faults v) := by
  rw [Kind.faults_of_strict rfl]
  refine notes_object h fun given h => ?_
  exact ((h.field _ (.array .string)).first _).next (h.field _ .string)

theorem tyParam (h : PartsNoted n v) :
    Notes (Decode.tyParam (n + 1) v) (Kind.tyParam.faults v) := by
  rw [Kind.faults_of_strict rfl]
  refine notes_object h fun given h => ?_
  exact (((h.field _ .string).first _).next (h.field _ .flag)).next (h.field _ .type)

theorem anonType (h : PartsNoted n v) :
    Notes ((Kind.read n .anonType) v) (Kind.anonType.faults v) := by
  rw [Kind.faults_of_strict rfl]
  refine notes_object h fun given h => ?_
  have hfields := h.field "fields" (.array .anonField)
  rwa [← List.flatMap_singleton Part.faults] at hfields

theorem anonField (h : PartsNoted n v) :
    Notes (Decode.anonField (n + 1) v) (Kind.anonField.faults v) := by
  rw [Kind.faults_of_strict rfl]
  refine notes_object h fun given h => ?_
  exact ((h.field _ .string).first _).next (h.field _ .type)

theorem typeArg (h : PartsNoted n v) :
    Notes (Decode.typeArg (n + 1) v) (Kind.typeArg.faults v) := by
  rw [Kind.faults_of_strict rfl]
  refine notes_enum h fun c index args h => ?_
  split <;> simp only [Kind.typeArgSlots?]
  · exact (h.arg 0 .complexType).first _
  · exact (h.arg 0 .expr).first _
  · exact Notes.mismatch ..

theorem complexType (h : PartsNoted n v) :
    Notes (Decode.complexType (n + 1) v) (Kind.complexType.faults v) := by
  rw [Kind.faults_of_strict rfl]
  refine notes_enum h fun c index args h => ?_
  split <;> simp only [Kind.complexTypeSlots?]
  · exact (h.arg 0 .typePath).first _
  · exact ((h.arg 0 (.array .complexType)).first _).next (h.arg 1 .complexType)
  · exact (h.arg 0 (.array .fieldDecl)).first _
  · exact (h.arg 0 .complexType).first _
  · exact (h.arg 0 .complexType).first _
  · exact ((h.arg 0 .string).first _).next (h.arg 1 .complexType)
  · exact Notes.mismatch ..

theorem fieldKind (h : PartsNoted n v) :
    Notes (Decode.fieldKind (n + 1) v) (Kind.fieldKind.faults v) := by
  rw [Kind.faults_of_strict rfl]
  refine notes_enum h fun c index args h => ?_
  split <;> simp only [Kind.fieldKindSlots?]
  · exact ((h.lastArg 0 (.optional .complexType)).first _).next (h.lastArg 1 (.optional .expr))
  · exact (h.arg 0 .functionDef).first _
  · exact ((((h.arg 0 .string).first _).next (h.arg 1 .string)).next
      (h.lastArg 2 (.optional .complexType))).next (h.lastArg 3 (.optional .expr))
  · exact Notes.mismatch ..

theorem typeDefKind (h : PartsNoted n v) :
    Notes (Decode.typeDefKind n v) (Kind.typeDefKind.faults v) := by
  rw [Kind.faults_of_strict rfl]
  refine notes_enum h fun c index args h => ?_
  split <;> simp only [Kind.typeDefKindSlots?]
  · exact Notes.ok _
  · exact Notes.ok _
  · exact (((h.lastArg 0 (.optional .typePath)).first _).next
      (h.lastArg 1 (.arrayOrNull .typePath))).next (h.lastArg 2 .flag)
  · exact (h.arg 0 .complexType).first _
  · exact (h.lastArg 0 (.optional .complexType)).first _
  · exact Notes.mismatch ..

theorem constant (h : PartsNoted n v) :
    Notes (Decode.constant v) (Kind.constant.faults v) := by
  rw [Kind.faults_of_strict rfl]
  refine notes_enum h fun c index args h => ?_
  split <;> simp only [Kind.constantSlots?]
  · exact (h.arg 0 .string).first _
  · exact (h.arg 0 .string).first _
  · exact ((h.arg 0 .string).first _).next (h.lastArg 1 .quotes)
  · exact (h.arg 0 .string).first _
  · exact ((h.arg 0 .string).first _).next (h.arg 1 .string)
  · exact Notes.mismatch ..

theorem type (h : PartsNoted n v) :
    Notes (Decode.type (n + 1) v) (Kind.type.faults v) := by
  rw [Kind.faults_of_strict rfl]
  refine notes_enum h fun c index args h => ?_
  split <;> simp only [Kind.typeSlots?]
  · exact (h.arg 0 .int).first _
  · exact ((h.arg 0 .path).first _).next (h.arg 1 (.array .type))
  · exact ((h.arg 0 .path).first _).next (h.arg 1 (.array .type))
  · exact ((h.arg 0 .path).first _).next (h.arg 1 (.array .type))
  · exact ((h.arg 0 .path).first _).next (h.arg 1 (.array .type))
  · exact ((h.arg 0 (.array .tyParam)).first _).next (h.arg 1 .type)
  · exact (h.arg 0 .anonType).first _
  · exact Notes.ok _
  · exact Notes.mismatch ..

theorem binaryOp (h : PartsNoted n v) :
    Notes (Decode.binaryOp (n + 1) v) (Kind.binaryOp.faults v) := by
  rw [Kind.faults_of_strict rfl]
  refine notes_enum h fun c index args h => ?_
  unfold Kind.binaryOpSlots?
  by_cases hc : c = "OpAssignOp"
  · subst hc
    exact (h.arg 0 .binaryOp).first _
  · simp only [if_neg hc]
    cases Decode.plainOp? c with
    | some op => exact Notes.ok op
    | none => exact Notes.mismatch ..

theorem unaryOp (h : PartsNoted n v) : Notes (Decode.unaryOp v) (Kind.unaryOp.faults v) := by
  rw [Kind.faults_of_strict rfl]
  refine notes_enum h fun c index args h => ?_
  split <;> simp only [Kind.unaryOpSlots?]
  all_goals first
    | exact Notes.ok _
    | exact Notes.mismatch ..

theorem access (h : PartsNoted n v) : Notes (Decode.access v) (Kind.access.faults v) := by
  rw [Kind.faults_of_strict rfl]
  refine notes_enum h fun c index args h => ?_
  split <;> simp only [Kind.accessSlots?]
  all_goals first
    | exact Notes.ok _
    | exact Notes.mismatch ..

theorem quotes (h : PartsNoted n v) : Notes (Decode.quotes v) (Kind.quotes.faults v) := by
  refine notes_orDefault rfl ?_
  refine notes_enum h fun c index args h => ?_
  split <;> simp only [Kind.quotesSlots?]
  · exact Notes.ok _
  · exact Notes.ok _
  · exact Notes.mismatch ..

theorem quoteStatus (h : PartsNoted n v) :
    Notes (Decode.quoteStatus v) (Kind.quoteStatus.faults v) := by
  refine notes_orDefault rfl ?_
  refine notes_enum h fun c index args h => ?_
  split <;> simp only [Kind.quoteStatusSlots?]
  · exact Notes.ok _
  · exact Notes.ok _
  · exact Notes.mismatch ..

theorem position (h : PartsNoted n v) : Notes (Decode.position v) (Kind.position.faults v) := by
  refine notes_orDefault rfl ?_
  refine notes_object h fun given h => ?_
  exact (((h.field _ .file).first _).next (h.field _ .offset)).next (h.field _ .offset)

theorem functionKind (h : PartsNoted n v) :
    Notes (Decode.functionKind v) (Kind.functionKind.faults v) := by
  refine notes_orDefault rfl ?_
  refine notes_enum h fun c index args h => ?_
  split <;> simp only [Kind.functionKindSlots?]
  · exact Notes.ok _
  · exact (h.arg 0 .string).first _
  · exact Notes.ok _
  · exact Notes.mismatch ..

end PartsNoted

/-! ## Values without parts -/

theorem notes_string (v : Value) : Notes (Decode.string v) (Kind.string.faults v) := by
  rw [Kind.faults_of_strict rfl]
  cases v with
  | string s => exact Notes.ok s
  | _ => exact Notes.mismatch ..

theorem notes_bool (v : Value) : Notes (Decode.bool v) (Kind.bool.faults v) := by
  rw [Kind.faults_of_strict rfl]
  cases v with
  | bool b => exact Notes.ok b
  | _ => exact Notes.mismatch ..

theorem notes_flag (v : Value) : Notes (Decode.flag v) (Kind.flag.faults v) := by
  refine notes_orDefault rfl ?_
  cases v with
  | bool b => exact Notes.ok b
  | _ => exact Notes.mismatch ..

theorem notes_int (v : Value) : Notes (Decode.int v) (Kind.int.faults v) := by
  rw [Kind.faults_of_strict rfl]
  cases v with
  | int i => exact Notes.ok i
  | _ => exact Notes.mismatch ..

theorem notes_offset (v : Value) : Notes (Decode.offset v) (Kind.offset.faults v) := by
  rw [Kind.faults_of_strict rfl]
  cases v with
  | int i =>
    simp only [Kind.shape, Shape.inspect, Kind.checkOffset, Decode.offset]
    split
    · exact Notes.ok _
    · exact Notes.mismatch ..
  | _ => exact Notes.mismatch ..

theorem notes_file (v : Value) : Notes (Decode.file v) (Kind.file.faults v) := by
  rw [Kind.faults_of_strict rfl]
  cases v with
  | int i =>
    by_cases hi : i.toInt < 0
    · simp only [Kind.shape, Shape.inspect, Kind.checkFile, Decode.file, if_pos hi]
      exact Notes.ok _
    · have hoffset := notes_offset (.int i)
      rw [Kind.faults_of_strict rfl] at hoffset
      simp only [Kind.shape, Shape.inspect, Kind.checkFile, Decode.file, if_neg hi]
      exact hoffset
  | _ => exact Notes.mismatch ..

/-! ## All kinds -/

theorem notes_optional {k : Kind} {n : Nat} {v : Value} (h : Notes (k.read n v) (k.faults v)) :
    Notes (Decode.optional (k.read n) v) ((Kind.optional k).faults v) := by
  by_cases hv : v = .null
  · subst hv
    rw [Kind.faults_eq]
    exact Notes.ok none
  · have hfaults : (Kind.optional k).faults v = k.faults v := by
      rw [Kind.faults_eq, Kind.faults_eq, Kind.inspect_of_ne_null _ hv, Kind.inspect_of_ne_null _ hv]
      rfl
    have hread : Decode.optional (k.read n) v = some <$> k.read n v := by
      cases v <;> first | rfl | exact absurd rfl hv
    rw [hfaults, hread]
    exact h.map some

/-- If all is noted in the parts, it is noted in the whole. Most readers go on to the parts one level
further down; the others stay on their level. -/
theorem PartsNoted.whole {n : Nat} {v : Value} (h : PartsNoted n v) (hsame : PartsNoted (n + 1) v)
    (k : Kind) : Notes (k.read (n + 1) v) (k.faults v) := by
  induction k with
  | expr => exact h.expr
  | exprKind => exact h.exprKind
  | constant => exact h.constant
  | quotes => exact h.quotes
  | binaryOp => exact h.binaryOp
  | unaryOp => exact h.unaryOp
  | objectField => exact h.objectField
  | quoteStatus => exact h.quoteStatus
  | var => exact h.var
  | functionKind => exact h.functionKind
  | param => exact h.param
  | functionDef => exact h.functionDef
  | typeParamDecl => exact h.typeParamDecl
  | metadata => exact h.metadata
  | typePath => exact h.typePath
  | typeArg => exact h.typeArg
  | complexType => exact h.complexType
  | access => exact h.access
  | fieldKind => exact h.fieldKind
  | fieldDecl => exact h.fieldDecl
  | typeDefKind => exact hsame.typeDefKind
  | typeDefinition => exact hsame.typeDefinition
  | path => exact h.path
  | type => exact h.type
  | tyParam => exact h.tyParam
  | anonType => exact hsame.anonType
  | anonField => exact h.anonField
  | position => exact h.position
  | file => exact notes_file v
  | offset => exact notes_offset v
  | string => exact notes_string v
  | bool => exact notes_bool v
  | flag => exact notes_flag v
  | int => exact notes_int v
  | array item =>
    rw [Kind.faults_of_strict rfl]
    exact hsame.array item
  | arrayOrNull item => exact notes_orDefault rfl (hsame.array item)
  | optional k ih => exact notes_optional ih

/-- A reader with enough levels notes the faults of the value. -/
theorem Kind.notes_read {n : Nat} {v : Value} (h : v.depth ≤ n) (k : Kind) :
    Notes (k.read n v) (k.faults v) := by
  -- On the depth of the value: all its parts are nested less deep.
  induction hd : v.depth using Nat.strongRecOn generalizing v n k with
  | ind d ih =>
    subst hd
    obtain ⟨m, rfl⟩ : ∃ m, n = m + 1 := ⟨n - 1, by have := Value.one_le_depth v; omega⟩
    have hparts : ∀ l, m ≤ l → PartsNoted l v := by
      intro l hl w hw k
      exact ih w.depth hw (by omega) k rfl
    exact (hparts m (Nat.le_refl m)).whole (hparts (m + 1) (Nat.le_succ m)) k

end HaxeMacro
