import HaxeMacro.Codec.Encode
import HaxeMacro.Proofs.Codec.Depth

/-! # Decoding undoes encoding

A reader that finds what it expects walks on without a word (`Reading.ok`). So the readers of parts
can be put together: if they all give back what was encoded, the reader of the whole does.
-/

namespace HaxeMacro

open Reading

variable {α β : Type}

/-! ## Readers that find what they expect -/

namespace Reading

@[simp] theorem map_ok (f : α → β) (a : α) : f <$> (ok a : Reading α) = ok (f a) := rfl

@[simp] theorem seq_ok (f : α → β) (a : α) : (ok f : Reading (α → β)) <*> ok a = ok (f a) :=
  funext fun _ => rfl

@[simp] theorem under_ok (step : Step) (a : α) : (ok a).under step = ok a := by
  funext w
  simp [under, ok]

@[simp] theorem verdict_ok (a : α) (expected : String) (v : Value) :
    (ok a).verdict expected v = .ok a := rfl

end Reading

namespace Decode

theorem arg_eq_ok {c : String} {args : List Value} {i : Nat} {read : Decoder α} {v : Value} {a : α}
    (hv : args[i]? = some v) (h : read v = ok a) : arg c args i read = ok a := by
  rw [arg, hv]
  simp [h]

theorem optional_eq_ok {read : Decoder α} {encode : α → Value} (a? : Option α)
    (hnull : ∀ a, encode a ≠ .null) (h : ∀ a ∈ a?, read (encode a) = ok a) :
    optional read (Encode.option encode a?) = ok a? := by
  cases a? with
  | none => rfl
  | some a =>
    have ha := h a rfl
    rw [Encode.option, optional, ha]
    · rfl
    · exact hnull a

theorem itemsFrom_eq_ok {read : Decoder α} {encode : α → Value} {as : List α} (i : Nat)
    (h : ∀ a ∈ as, read (encode a) = ok a) : itemsFrom read i (as.map encode) = ok as := by
  induction as generalizing i with
  | nil => rfl
  | cons a as ih =>
    have ha := h a List.mem_cons_self
    have has := ih (i + 1) fun b hb => h b (List.mem_cons_of_mem _ hb)
    rw [List.map_cons, itemsFrom, ha, has]
    simp

theorem array_eq_ok {read : Decoder α} {encode : α → Value} {as : List α}
    (h : ∀ a ∈ as, read (encode a) = ok a) : array read (.array (as.map encode)) = ok as := by
  rw [array]
  exact itemsFrom_eq_ok 0 h

end Decode

/-! ## Lists and options of parts -/

namespace Encode

theorem exprs_eq_map (es : List Expr) : exprs es = es.map expr :=
  eq_map_of_cons rfl (fun _ _ => rfl) es

theorem objectFields_eq_map (fs : List ObjectField) : objectFields fs = fs.map objectField :=
  eq_map_of_cons rfl (fun _ _ => rfl) fs

theorem vars_eq_map (vs : List Var) : vars vs = vs.map var :=
  eq_map_of_cons rfl (fun _ _ => rfl) vs

theorem params_eq_map (ps : List Param) : params ps = ps.map param :=
  eq_map_of_cons rfl (fun _ _ => rfl) ps

theorem typeParamDecls_eq_map (ds : List TypeParamDecl) : typeParamDecls ds = ds.map typeParamDecl :=
  eq_map_of_cons rfl (fun _ _ => rfl) ds

theorem metadatas_eq_map (ms : List Metadata) : metadatas ms = ms.map metadata :=
  eq_map_of_cons rfl (fun _ _ => rfl) ms

theorem typeArgs_eq_map (as : List TypeArg) : typeArgs as = as.map typeArg :=
  eq_map_of_cons rfl (fun _ _ => rfl) as

theorem complexTypes_eq_map (ts : List ComplexType) : complexTypes ts = ts.map complexType :=
  eq_map_of_cons rfl (fun _ _ => rfl) ts

theorem fieldValues_eq_map (fs : List Field) : fieldValues fs = fs.map field :=
  eq_map_of_cons rfl (fun _ _ => rfl) fs

theorem types_eq_map (ts : List Ty) : types ts = ts.map type :=
  eq_map_of_cons rfl (fun _ _ => rfl) ts

theorem tyParams_eq_map (ps : List TyParam) : tyParams ps = ps.map tyParam :=
  eq_map_of_cons rfl (fun _ _ => rfl) ps

theorem anonFields_eq_map (fs : List (String × Ty)) : anonFields fs = fs.map anonField :=
  eq_map_of_cons rfl (fun _ _ => rfl) fs

theorem optionExpr_eq_option (e? : Option Expr) : optionExpr e? = option expr e? := by
  cases e? <;> rfl

theorem optionType_eq_option (t? : Option ComplexType) :
    optionType t? = option complexType t? := by
  cases t? <;> rfl

theorem expr_ne_null (e : Expr) : expr e ≠ .null := by
  cases e
  simp [expr]

theorem complexType_ne_null (t : ComplexType) : complexType t ≠ .null := by
  cases t <;> simp [complexType]

theorem typePath_ne_null (p : TypePath) : typePath p ≠ .null := by
  cases p
  simp [typePath]

end Encode

/-! ## Readers up to a depth -/

/-- The reader gives back what was encoded, as far as its value is nested at most `n` deep. -/
def Reads (n : Nat) (read : Decoder α) (encode : α → Value) : Prop :=
  ∀ a, (encode a).depth ≤ n → read (encode a) = ok a

namespace Reads

variable {n : Nat} {read : Decoder α} {encode : α → Value}

theorem array (h : Reads n read encode) (as : List α)
    (hd : (Value.array (as.map encode)).depth ≤ n) :
    Decode.array read (.array (as.map encode)) = ok as := by
  apply Decode.array_eq_ok
  intro a ha
  have hmem : encode a ∈ as.map encode := List.mem_map_of_mem ha
  have hlt := Value.depth_item_lt hmem
  exact h a (by omega)

theorem arrayOrNull (h : Reads n read encode) (as : List α)
    (hd : (Value.array (as.map encode)).depth ≤ n) :
    Decode.arrayOrNull read (.array (as.map encode)) = ok as := h.array as hd

theorem option (h : Reads n read encode) (hnull : ∀ a, encode a ≠ .null) (a? : Option α)
    (hd : (Encode.option encode a?).depth ≤ n) :
    Decode.optional read (Encode.option encode a?) = ok a? := by
  apply Decode.optional_eq_ok a? hnull
  rintro a rfl
  exact h a hd

end Reads

/-- All readers of fragments at level `n` give back what was encoded. -/
structure RoundTrips (n : Nat) : Prop where
  expr : Reads n (Decode.expr n) Encode.expr
  exprKind : Reads n (Decode.exprKind n) Encode.exprKind
  objectField : Reads n (Decode.objectField n) Encode.objectField
  var : Reads n (Decode.var n) Encode.var
  param : Reads n (Decode.param n) Encode.param
  functionDef : Reads n (Decode.functionDef n) Encode.functionDef
  typeParamDecl : Reads n (Decode.typeParamDecl n) Encode.typeParamDecl
  metadata : Reads n (Decode.metadata n) Encode.metadata
  typePath : Reads n (Decode.typePath n) Encode.typePath
  typeArg : Reads n (Decode.typeArg n) Encode.typeArg
  complexType : Reads n (Decode.complexType n) Encode.complexType
  fieldKind : Reads n (Decode.fieldKind n) Encode.fieldKind
  fieldDecl : Reads n (Decode.fieldDecl n) Encode.field

/-! ## Leaves -/

@[simp] theorem reads_string (s : String) : Decode.string (.string s) = ok s := rfl

@[simp] theorem reads_bool (b : Bool) : Decode.bool (.bool b) = ok b :=
  funext fun _ => rfl

@[simp] theorem reads_flag (b : Bool) : Decode.flag (.bool b) = ok b :=
  funext fun _ => rfl

@[simp] theorem reads_strings (ss : List String) : Decode.strings (Encode.strings ss) = ok ss :=
  Decode.array_eq_ok fun s _ => reads_string s

theorem reads_optionalString (s? : Option String) :
    Decode.optional Decode.string (Encode.option .string s?) = ok s? := by
  apply Decode.optional_eq_ok
  · intro s
    exact Value.noConfusion
  · intro s _
    exact reads_string s

theorem Fields.get_cons (key : String) (v : Value) (rest : Fields) (name : String) :
    Fields.get ((key, v) :: rest) name = if key = name then v else Fields.get rest name := by
  rw [Fields.get, Entries.get?]
  split <;> rfl

@[simp] theorem reads_quotes (q : Quotes) : Decode.quotes (Encode.quotes q) = ok q := by
  cases q <;> rfl

@[simp] theorem reads_constant (c : Constant) : Decode.constant (Encode.constant c) = ok c := by
  cases c <;>
    simp [Encode.constant, Decode.constant, Decode.enumOf, Decode.arg, Decode.lastArg]

@[simp] theorem reads_unaryOp (op : UnaryOp) : Decode.unaryOp (Encode.unaryOp op) = ok op := by
  cases op <;> rfl

@[simp] theorem reads_access (a : Access) : Decode.access (Encode.access a) = ok a := by
  cases a <;> rfl

@[simp] theorem reads_functionKind (k : FunctionKind) :
    Decode.functionKind (Encode.functionKind k) = ok k := by
  cases k <;>
    simp [Encode.functionKind, Decode.functionKind, Decode.orDefault, Decode.enumOf, Decode.arg]

@[simp] theorem reads_quoteStatus (q : Bool) :
    Decode.quoteStatus (Encode.quoteStatus q) = ok q := by
  cases q <;> rfl

theorem toInt_word (x : UInt32) : (Int64.ofNat x.toNat).toInt = x.toNat := by
  have h := x.toNat_lt
  rw [Int64.toInt_ofNat_of_lt (by omega)]

@[simp] theorem reads_offset (x : UInt32) : Decode.offset (Encode.word x) = ok x := by
  have h := x.toNat_lt
  have hi := toInt_word x
  rw [Encode.word, Decode.offset, hi, if_pos (by omega)]
  simp

theorem reads_file (p : Position) :
    Decode.file (if p.isNull then .int (-1) else Encode.word p.file) = ok p.file := by
  by_cases h : p.isNull
  · rw [if_pos h]
    have hfile : p.file = Position.noFile := by simpa [Position.isNull] using h
    rw [hfile]
    rfl
  · rw [if_neg h, Encode.word, Decode.file, if_neg (by rw [toInt_word]; omega)]
    exact reads_offset p.file

@[simp] theorem reads_position (p : Position) : Decode.position (Encode.position p) = ok p := by
  have hfile := reads_file p
  simp [Encode.position, Decode.position, Decode.orDefault, Decode.object, Decode.field,
    Fields.get_cons, hfile]

theorem enumOf_self (type constructor : String) (index : Nat) (args : List Value)
    (read : String → List Value → Reading α) :
    Decode.enumOf type read (.enum type constructor index args) = read constructor args := by
  rw [Decode.enumOf, if_pos rfl]

theorem depth_part {fields : Fields} {n : Nat} (hd : (Value.object fields).depth ≤ n + 1)
    (name : String) : (Fields.get fields name).depth ≤ n :=
  Nat.lt_succ_iff.mp (Nat.lt_of_lt_of_le (Value.depth_field_lt fields name) hd)

theorem depth_arg {type constructor : String} {index n : Nat} {args : List Value}
    (hd : (Value.enum type constructor index args).depth ≤ n + 1) (i : Nat) {v : Value}
    (hv : args[i]? = some v) : v.depth ≤ n :=
  Nat.lt_succ_iff.mp (Nat.lt_of_lt_of_le (Value.depth_arg_lt (List.mem_of_getElem? hv)) hd)

theorem reads_binaryOp (n : Nat) : Reads n (Decode.binaryOp n) Encode.binaryOp := by
  induction n with
  | zero =>
    intro op hd
    have h := Value.one_le_depth (Encode.binaryOp op)
    omega
  | succ n ih =>
    intro op hd
    cases op with
    | assignOp op =>
      have hop := ih op (depth_arg hd 0 rfl)
      change BinaryOp.assignOp <$> Decode.arg _ _ 0 (Decode.binaryOp n) = _
      rw [Decode.arg_eq_ok rfl hop, map_ok]
    | _ => rfl

/-! ## One level -/

section Level

variable {n : Nat}

theorem expr_step (ih : RoundTrips n) : Reads (n + 1) (Decode.expr (n + 1)) Encode.expr := by
  rintro ⟨kind, pos⟩ hd
  have hkind := ih.exprKind kind (depth_part hd "expr")
  simp [Encode.expr, Decode.expr, Decode.object, Decode.field, Fields.get_cons, hkind]

theorem exprKind_step (ih : RoundTrips n) :
    Reads (n + 1) (Decode.exprKind (n + 1)) Encode.exprKind := by
  intro k hd
  cases k with
  | const c =>
    rw [Encode.exprKind, Encode.form, Decode.exprKind, enumOf_self]
    simp [Decode.arg]
  | index a b =>
    have ha := ih.expr a (depth_arg hd 0 rfl)
    have hb := ih.expr b (depth_arg hd 1 rfl)
    rw [Encode.exprKind, Encode.form, Decode.exprKind, enumOf_self]
    simp [Decode.arg, ha, hb]
  | binary op a b =>
    have hop := reads_binaryOp n op (depth_arg hd 0 rfl)
    have ha := ih.expr a (depth_arg hd 1 rfl)
    have hb := ih.expr b (depth_arg hd 2 rfl)
    rw [Encode.exprKind, Encode.form, Decode.exprKind, enumOf_self]
    simp [Decode.arg, hop, ha, hb]
  | field e name =>
    have he := ih.expr e (depth_arg hd 0 rfl)
    rw [Encode.exprKind, Encode.form, Decode.exprKind, enumOf_self]
    simp [Decode.arg, he]
  | paren e =>
    have he := ih.expr e (depth_arg hd 0 rfl)
    rw [Encode.exprKind, Encode.form, Decode.exprKind, enumOf_self]
    simp [Decode.arg, he]
  | object fs =>
    rw [Encode.exprKind, Encode.objectFields_eq_map] at hd ⊢
    have hfs := ih.objectField.array fs (depth_arg hd 0 rfl)
    rw [Encode.form, Decode.exprKind, enumOf_self]
    simp [Decode.arg, hfs]
  | array es =>
    rw [Encode.exprKind, Encode.exprs_eq_map] at hd ⊢
    have hes := ih.expr.array es (depth_arg hd 0 rfl)
    rw [Encode.form, Decode.exprKind, enumOf_self]
    simp [Decode.arg, hes]
  | call e es =>
    rw [Encode.exprKind, Encode.exprs_eq_map] at hd ⊢
    have he := ih.expr e (depth_arg hd 0 rfl)
    have hes := ih.expr.array es (depth_arg hd 1 rfl)
    rw [Encode.form, Decode.exprKind, enumOf_self]
    simp [Decode.arg, he, hes]
  | new p es =>
    rw [Encode.exprKind, Encode.exprs_eq_map] at hd ⊢
    have hp := ih.typePath p (depth_arg hd 0 rfl)
    have hes := ih.expr.array es (depth_arg hd 1 rfl)
    rw [Encode.form, Decode.exprKind, enumOf_self]
    simp [Decode.arg, hp, hes]
  | unary op after e =>
    have he := ih.expr e (depth_arg hd 2 rfl)
    rw [Encode.exprKind, Encode.form, Decode.exprKind, enumOf_self]
    simp [Decode.arg, he]
  | vars vs =>
    rw [Encode.exprKind, Encode.vars_eq_map] at hd ⊢
    have hvs := ih.var.array vs (depth_arg hd 0 rfl)
    rw [Encode.form, Decode.exprKind, enumOf_self]
    simp [Decode.arg, hvs]
  | function kind func =>
    have hfunc := ih.functionDef func (depth_arg hd 1 rfl)
    rw [Encode.exprKind, Encode.form, Decode.exprKind, enumOf_self]
    simp [Decode.arg, hfunc]
  | block es =>
    rw [Encode.exprKind, Encode.exprs_eq_map] at hd ⊢
    have hes := ih.expr.array es (depth_arg hd 0 rfl)
    rw [Encode.form, Decode.exprKind, enumOf_self]
    simp [Decode.arg, hes]
  | forIn a b =>
    have ha := ih.expr a (depth_arg hd 0 rfl)
    have hb := ih.expr b (depth_arg hd 1 rfl)
    rw [Encode.exprKind, Encode.form, Decode.exprKind, enumOf_self]
    simp [Decode.arg, ha, hb]
  | cond a b e? =>
    rw [Encode.exprKind, Encode.optionExpr_eq_option] at hd ⊢
    have ha := ih.expr a (depth_arg hd 0 rfl)
    have hb := ih.expr b (depth_arg hd 1 rfl)
    have he := ih.expr.option Encode.expr_ne_null e? (depth_arg hd 2 rfl)
    rw [Encode.form, Decode.exprKind, enumOf_self]
    simp [Decode.arg, ha, hb, he]
  | loop a b first =>
    have ha := ih.expr a (depth_arg hd 0 rfl)
    have hb := ih.expr b (depth_arg hd 1 rfl)
    rw [Encode.exprKind, Encode.form, Decode.exprKind, enumOf_self]
    simp [Decode.arg, ha, hb]
  | ret e? =>
    rw [Encode.exprKind, Encode.optionExpr_eq_option] at hd ⊢
    have he := ih.expr.option Encode.expr_ne_null e? (depth_arg hd 0 rfl)
    rw [Encode.form, Decode.exprKind, enumOf_self]
    simp [Decode.lastArg, he]
  | brk => rfl
  | cont => rfl
  | untyped e =>
    have he := ih.expr e (depth_arg hd 0 rfl)
    rw [Encode.exprKind, Encode.form, Decode.exprKind, enumOf_self]
    simp [Decode.arg, he]
  | throw e =>
    have he := ih.expr e (depth_arg hd 0 rfl)
    rw [Encode.exprKind, Encode.form, Decode.exprKind, enumOf_self]
    simp [Decode.arg, he]
  | cast e t? =>
    rw [Encode.exprKind, Encode.optionType_eq_option] at hd ⊢
    have he := ih.expr e (depth_arg hd 0 rfl)
    have ht := ih.complexType.option Encode.complexType_ne_null t? (depth_arg hd 1 rfl)
    rw [Encode.form, Decode.exprKind, enumOf_self]
    simp [Decode.arg, Decode.lastArg, he, ht]
  | ternary a b c =>
    have ha := ih.expr a (depth_arg hd 0 rfl)
    have hb := ih.expr b (depth_arg hd 1 rfl)
    have hc := ih.expr c (depth_arg hd 2 rfl)
    rw [Encode.exprKind, Encode.form, Decode.exprKind, enumOf_self]
    simp [Decode.arg, ha, hb, hc]
  | checkType e t =>
    have he := ih.expr e (depth_arg hd 0 rfl)
    have ht := ih.complexType t (depth_arg hd 1 rfl)
    rw [Encode.exprKind, Encode.form, Decode.exprKind, enumOf_self]
    simp [Decode.arg, he, ht]
  | annotated m e =>
    have hm := ih.metadata m (depth_arg hd 0 rfl)
    have he := ih.expr e (depth_arg hd 1 rfl)
    rw [Encode.exprKind, Encode.form, Decode.exprKind, enumOf_self]
    simp [Decode.arg, hm, he]

theorem objectField_step (ih : RoundTrips n) :
    Reads (n + 1) (Decode.objectField (n + 1)) Encode.objectField := by
  rintro ⟨name, value, quoted⟩ hd
  have hvalue := ih.expr value (depth_part hd "expr")
  simp [Encode.objectField, Decode.objectField, Decode.object, Decode.field, Fields.get_cons,
    hvalue]

theorem var_step (ih : RoundTrips n) : Reads (n + 1) (Decode.var (n + 1)) Encode.var := by
  rintro ⟨name, type, init, isFinal, isStatic, annotations⟩ hd
  rw [Encode.var, Encode.optionType_eq_option, Encode.optionExpr_eq_option,
    Encode.metadatas_eq_map] at hd ⊢
  have htype := ih.complexType.option Encode.complexType_ne_null type (depth_part hd "type")
  have hinit := ih.expr.option Encode.expr_ne_null init (depth_part hd "expr")
  have hmeta := ih.metadata.arrayOrNull annotations (depth_part hd "meta")
  simp [Decode.var, Decode.object, Decode.field, Fields.get_cons, htype, hinit, hmeta]

theorem param_step (ih : RoundTrips n) : Reads (n + 1) (Decode.param (n + 1)) Encode.param := by
  rintro ⟨name, optional, type, default, annotations⟩ hd
  rw [Encode.param, Encode.optionType_eq_option, Encode.optionExpr_eq_option,
    Encode.metadatas_eq_map] at hd ⊢
  have htype := ih.complexType.option Encode.complexType_ne_null type (depth_part hd "type")
  have hdefault := ih.expr.option Encode.expr_ne_null default (depth_part hd "value")
  have hmeta := ih.metadata.arrayOrNull annotations (depth_part hd "meta")
  simp [Decode.param, Decode.object, Decode.field, Fields.get_cons, htype, hdefault, hmeta]

theorem functionDef_step (ih : RoundTrips n) :
    Reads (n + 1) (Decode.functionDef (n + 1)) Encode.functionDef := by
  rintro ⟨params, ret, body, typeParams⟩ hd
  rw [Encode.functionDef, Encode.params_eq_map, Encode.optionType_eq_option,
    Encode.optionExpr_eq_option, Encode.typeParamDecls_eq_map] at hd ⊢
  have hparams := ih.param.array params (depth_part hd "args")
  have hret := ih.complexType.option Encode.complexType_ne_null ret (depth_part hd "ret")
  have hbody := ih.expr.option Encode.expr_ne_null body (depth_part hd "expr")
  have htypeParams := ih.typeParamDecl.arrayOrNull typeParams (depth_part hd "params")
  simp [Decode.functionDef, Decode.object, Decode.field, Fields.get_cons, hparams, hret, hbody,
    htypeParams]

theorem typeParamDecl_step (ih : RoundTrips n) :
    Reads (n + 1) (Decode.typeParamDecl (n + 1)) Encode.typeParamDecl := by
  rintro ⟨name, constraints, params, annotations⟩ hd
  rw [Encode.typeParamDecl, Encode.complexTypes_eq_map, Encode.typeParamDecls_eq_map,
    Encode.metadatas_eq_map] at hd ⊢
  have hconstraints := ih.complexType.arrayOrNull constraints (depth_part hd "constraints")
  have hparams := ih.typeParamDecl.arrayOrNull params (depth_part hd "params")
  have hmeta := ih.metadata.arrayOrNull annotations (depth_part hd "meta")
  simp [Decode.typeParamDecl, Decode.object, Decode.field, Fields.get_cons, hconstraints, hparams,
    hmeta]

theorem metadata_step (ih : RoundTrips n) :
    Reads (n + 1) (Decode.metadata (n + 1)) Encode.metadata := by
  rintro ⟨name, args, pos⟩ hd
  rw [Encode.metadata, Encode.exprs_eq_map] at hd ⊢
  have hargs := ih.expr.arrayOrNull args (depth_part hd "params")
  simp [Decode.metadata, Decode.object, Decode.field, Fields.get_cons, hargs]

theorem typePath_step (ih : RoundTrips n) :
    Reads (n + 1) (Decode.typePath (n + 1)) Encode.typePath := by
  rintro ⟨pack, name, args, sub⟩ hd
  rw [Encode.typePath, Encode.typeArgs_eq_map] at hd ⊢
  have hargs := ih.typeArg.arrayOrNull args (depth_part hd "params")
  have hsub := reads_optionalString sub
  simp [Decode.typePath, Decode.object, Decode.field, Fields.get_cons, hargs, hsub]

theorem typeArg_step (ih : RoundTrips n) :
    Reads (n + 1) (Decode.typeArg (n + 1)) Encode.typeArg := by
  intro a hd
  cases a with
  | type t =>
    have ht := ih.complexType t (depth_arg hd 0 rfl)
    simp [Encode.typeArg, Decode.typeArg, enumOf_self, Decode.arg, ht]
  | expr e =>
    have he := ih.expr e (depth_arg hd 0 rfl)
    simp [Encode.typeArg, Decode.typeArg, enumOf_self, Decode.arg, he]

theorem complexType_step (ih : RoundTrips n) :
    Reads (n + 1) (Decode.complexType (n + 1)) Encode.complexType := by
  intro t hd
  cases t with
  | path p =>
    have hp := ih.typePath p (depth_arg hd 0 rfl)
    simp [Encode.complexType, Decode.complexType, enumOf_self, Decode.arg, hp]
  | function ts t =>
    rw [Encode.complexType, Encode.complexTypes_eq_map] at hd ⊢
    have hts := ih.complexType.array ts (depth_arg hd 0 rfl)
    have ht := ih.complexType t (depth_arg hd 1 rfl)
    simp [Decode.complexType, enumOf_self, Decode.arg, hts, ht]
  | anonymous fs =>
    rw [Encode.complexType, Encode.fieldValues_eq_map] at hd ⊢
    have hfs := ih.fieldDecl.array fs (depth_arg hd 0 rfl)
    simp [Decode.complexType, enumOf_self, Decode.arg, hfs]
  | paren t =>
    have ht := ih.complexType t (depth_arg hd 0 rfl)
    simp [Encode.complexType, Decode.complexType, enumOf_self, Decode.arg, ht]
  | optional t =>
    have ht := ih.complexType t (depth_arg hd 0 rfl)
    simp [Encode.complexType, Decode.complexType, enumOf_self, Decode.arg, ht]
  | named name t =>
    have ht := ih.complexType t (depth_arg hd 1 rfl)
    simp [Encode.complexType, Decode.complexType, enumOf_self, Decode.arg, ht]

theorem fieldKind_step (ih : RoundTrips n) :
    Reads (n + 1) (Decode.fieldKind (n + 1)) Encode.fieldKind := by
  intro k hd
  cases k with
  | var type init =>
    rw [Encode.fieldKind, Encode.optionType_eq_option, Encode.optionExpr_eq_option] at hd ⊢
    have htype := ih.complexType.option Encode.complexType_ne_null type (depth_arg hd 0 rfl)
    have hinit := ih.expr.option Encode.expr_ne_null init (depth_arg hd 1 rfl)
    simp [Decode.fieldKind, enumOf_self, Decode.lastArg, htype, hinit]
  | method func =>
    have hfunc := ih.functionDef func (depth_arg hd 0 rfl)
    simp [Encode.fieldKind, Decode.fieldKind, enumOf_self, Decode.arg, hfunc]
  | property getter setter type init =>
    rw [Encode.fieldKind, Encode.optionType_eq_option, Encode.optionExpr_eq_option] at hd ⊢
    have htype := ih.complexType.option Encode.complexType_ne_null type (depth_arg hd 2 rfl)
    have hinit := ih.expr.option Encode.expr_ne_null init (depth_arg hd 3 rfl)
    simp [Decode.fieldKind, enumOf_self, Decode.arg, Decode.lastArg, htype, hinit]

theorem fieldDecl_step (ih : RoundTrips n) :
    Reads (n + 1) (Decode.fieldDecl (n + 1)) Encode.field := by
  rintro ⟨name, doc, access, kind, pos, annotations⟩ hd
  rw [Encode.field, Encode.metadatas_eq_map] at hd ⊢
  have hdoc := reads_optionalString doc
  have haccess : Decode.arrayOrNull Decode.access (Encode.list Encode.access access) = ok access :=
    Decode.array_eq_ok fun a _ => reads_access a
  have hkind := ih.fieldKind kind (depth_part hd "kind")
  have hmeta := ih.metadata.arrayOrNull annotations (depth_part hd "meta")
  simp [Decode.fieldDecl, Decode.object, Decode.field, Fields.get_cons, hdoc, haccess, hkind, hmeta]

end Level

theorem reads_zero (read : Decoder α) (encode : α → Value) : Reads 0 read encode := by
  intro a hd
  have h := Value.one_le_depth (encode a)
  omega

theorem roundTrips (n : Nat) : RoundTrips n := by
  induction n with
  | zero => constructor <;> apply reads_zero
  | succ n ih => exact {
      expr := expr_step ih
      exprKind := exprKind_step ih
      objectField := objectField_step ih
      var := var_step ih
      param := param_step ih
      functionDef := functionDef_step ih
      typeParamDecl := typeParamDecl_step ih
      metadata := metadata_step ih
      typePath := typePath_step ih
      typeArg := typeArg_step ih
      complexType := complexType_step ih
      fieldKind := fieldKind_step ih
      fieldDecl := fieldDecl_step ih }

/-! ## Type definitions -/

section Definitions

variable {n : Nat}

theorem reads_typeDefKind (k : TypeDefKind) (hd : (Encode.typeDefKind k).depth ≤ n + 1) :
    Decode.typeDefKind n (Encode.typeDefKind k) = ok k := by
  have ih := roundTrips n
  cases k with
  | enum => rfl
  | record => rfl
  | classType super interfaces isInterface =>
    have hsuper := ih.typePath.option Encode.typePath_ne_null super (depth_arg hd 0 rfl)
    have hinterfaces : Decode.arrayOrNull (Decode.typePath n)
        (Encode.list Encode.typePath interfaces) = ok interfaces :=
      ih.typePath.arrayOrNull interfaces (depth_arg hd 1 rfl)
    simp [Encode.typeDefKind, Decode.typeDefKind, enumOf_self, Decode.lastArg, hsuper, hinterfaces]
  | synonym t =>
    have ht := ih.complexType t (depth_arg hd 0 rfl)
    simp [Encode.typeDefKind, Decode.typeDefKind, enumOf_self, Decode.arg, ht]
  | abstractType t =>
    rw [Encode.typeDefKind, Encode.optionType_eq_option] at hd ⊢
    have ht := ih.complexType.option Encode.complexType_ne_null t (depth_arg hd 0 rfl)
    simp [Decode.typeDefKind, enumOf_self, Decode.lastArg, ht]

theorem reads_typeDefinition (d : TypeDefinition)
    (hd : (Encode.typeDefinition d).depth ≤ n + 1) :
    Decode.typeDefinition n (Encode.typeDefinition d) = ok d := by
  have ih := roundTrips n
  obtain ⟨pack, name, pos, annotations, params, isExtern, kind, fields⟩ := d
  simp only [Encode.typeDefinition, Encode.metadatas_eq_map, Encode.typeParamDecls_eq_map,
    Encode.fieldValues_eq_map] at hd ⊢
  have hmeta := ih.metadata.arrayOrNull annotations (depth_part hd "meta")
  have hparams := ih.typeParamDecl.arrayOrNull params (depth_part hd "params")
  have hkind := reads_typeDefKind kind (Nat.le_succ_of_le (depth_part hd "kind"))
  have hfields := ih.fieldDecl.array fields (depth_part hd "fields")
  simp [Decode.typeDefinition, Decode.object, Decode.field, Fields.get_cons, hmeta, hparams, hkind,
    hfields]

end Definitions

/-! ## Types of the program -/

/-- All readers of types at level `n` give back what was encoded. -/
structure TypesRoundTrip (n : Nat) : Prop where
  type : Reads n (Decode.type n) Encode.type
  tyParam : Reads n (Decode.tyParam n) Encode.tyParam
  anonField : Reads n (Decode.anonField n) Encode.anonField

@[simp] theorem reads_path (p : Path) : Decode.path (Encode.path p) = ok p := by
  simp [Encode.path, Decode.path, Decode.object, Decode.field, Fields.get_cons]

section Types

variable {n : Nat}

theorem reads_mono (id : UInt32) (n : Nat) :
    Decode.type (n + 1) (Encode.type (.mono id)) = ok (.mono id) := by
  simp [Encode.type, Encode.word, Decode.type, enumOf_self, Decode.arg, Decode.int]

theorem type_step (ih : TypesRoundTrip n) : Reads (n + 1) (Decode.type (n + 1)) Encode.type := by
  intro t hd
  cases t with
  | mono id => exact reads_mono id n
  | dynamic => rfl
  | enum p args | inst p args | synonym p args | abstract p args =>
    rw [Encode.type, Encode.types_eq_map] at hd ⊢
    have hargs := ih.type.array args (depth_arg hd 1 rfl)
    simp [Decode.type, enumOf_self, Decode.arg, hargs]
  | func params ret =>
    rw [Encode.type, Encode.tyParams_eq_map] at hd ⊢
    have hparams := ih.tyParam.array params (depth_arg hd 0 rfl)
    have hret := ih.type ret (depth_arg hd 1 rfl)
    simp [Decode.type, enumOf_self, Decode.arg, hparams, hret]
  | anon fields =>
    rw [Encode.type, Encode.anonFields_eq_map] at hd ⊢
    have hobject := depth_arg hd 0 rfl
    have hitems := Value.depth_field_lt [("fields", .array (fields.map Encode.anonField))] "fields"
    have hfields := ih.anonField.array fields (Nat.le_of_lt (Nat.lt_of_lt_of_le hitems hobject))
    simp [Decode.type, enumOf_self, Decode.arg, Decode.object, Decode.field, Fields.get_cons,
      hfields]

theorem tyParam_step (ih : TypesRoundTrip n) :
    Reads (n + 1) (Decode.tyParam (n + 1)) Encode.tyParam := by
  rintro ⟨name, optional, t⟩ hd
  have ht := ih.type t (depth_part hd "t")
  simp [Encode.tyParam, Decode.tyParam, Decode.object, Decode.field, Fields.get_cons, ht]

theorem anonField_step (ih : TypesRoundTrip n) :
    Reads (n + 1) (Decode.anonField (n + 1)) Encode.anonField := by
  rintro ⟨name, t⟩ hd
  have ht := ih.type t (depth_part hd "type")
  simp [Encode.anonField, Decode.anonField, Decode.object, Decode.field, Fields.get_cons, ht]

theorem typesRoundTrip (n : Nat) : TypesRoundTrip n := by
  induction n with
  | zero => constructor <;> apply reads_zero
  | succ n ih => exact {
      type := type_step ih
      tyParam := tyParam_step ih
      anonField := anonField_step ih }

end Types

/-! ## Whole values -/

/-- Decoding gives back every fragment, position and type from its value. -/
theorem decode_encode :
    (∀ e : Expr, (Encode.expr e).decodeExpr = .ok e) ∧
    (∀ f : Field, (Encode.field f).decodeField = .ok f) ∧
    (∀ t : ComplexType, (Encode.complexType t).decodeComplexType = .ok t) ∧
    (∀ d : TypeDefinition, (Encode.typeDefinition d).decodeTypeDefinition = .ok d) ∧
    (∀ m : Metadata, (Encode.metadata m).decodeMetadata = .ok m) ∧
    (∀ p : Position, (Encode.position p).decodePosition = .ok p) ∧
    (∀ t : Ty, (Encode.type t).decodeType = .ok t) := by
  refine ⟨?_, ?_, ?_, ?_, ?_, ?_, ?_⟩
  · intro e
    rw [Value.decodeExpr, (roundTrips _).expr e (Nat.le_refl _), verdict_ok]
  · intro f
    rw [Value.decodeField, (roundTrips _).fieldDecl f (Nat.le_refl _), verdict_ok]
  · intro t
    rw [Value.decodeComplexType, (roundTrips _).complexType t (Nat.le_refl _), verdict_ok]
  · intro d
    rw [Value.decodeTypeDefinition, reads_typeDefinition d (Nat.le_succ _), verdict_ok]
  · intro m
    rw [Value.decodeMetadata, (roundTrips _).metadata m (Nat.le_refl _), verdict_ok]
  · intro p
    rw [Value.decodePosition, reads_position, verdict_ok]
  · intro t
    rw [Value.decodeType, (typesRoundTrip _).type t (Nat.le_refl _), verdict_ok]

end HaxeMacro
