import HaxeMacro.Proofs.Codec.Faults

/-! # The standard form of a value

A value of a kind may leave out what has a default, may hold parts that no reader looks at, and may
number its constructors in any way. Its standard form says the same with every part in its place,
nothing else, and the numbers of the macro library. The form is given by the table of kinds alone;
no reader and no fragment occurs in it.
-/

namespace HaxeMacro

/-! ## What the form fills in -/

/-- The value that a null of the kind stands for. -/
def Kind.absent : Kind → Value
  | quotes => .enum "StringLiteralKind" "DoubleQuotes" 0 []
  | quoteStatus => .enum "QuoteStatus" "Unquoted" 0 []
  | functionKind => .enum "FunctionKind" "FAnonymous" 0 []
  | position => .object [("file", .int (-1)), ("min", .int 0), ("max", .int 0)]
  | flag => .bool false
  | arrayOrNull _ => .array []
  | _ => .null

/-- The constructors of an enum in the order of their numbers. A number whose constructor no
fragment has stays blank. -/
def constructors : (type : String) → List String
  | "ExprDef" => ["EConst", "EArray", "EBinop", "EField", "EParenthesis", "EObjectDecl",
      "EArrayDecl", "ECall", "ENew", "EUnop", "EVars", "EFunction", "EBlock", "EFor", "EIf",
      "EWhile", "", "", "EReturn", "EBreak", "EContinue", "EUntyped", "EThrow", "ECast", "",
      "ETernary", "ECheckType", "EMeta"]
  | "Constant" => ["CInt", "CFloat", "CString", "CIdent", "CRegexp"]
  | "StringLiteralKind" => ["DoubleQuotes", "SingleQuotes"]
  | "Binop" => ["OpAdd", "OpMult", "OpDiv", "OpSub", "OpAssign", "OpEq", "OpNotEq", "OpGt",
      "OpGte", "OpLt", "OpLte", "OpAnd", "OpOr", "OpXor", "OpBoolAnd", "OpBoolOr", "OpShl",
      "OpShr", "OpUShr", "OpMod", "OpAssignOp", "OpInterval", "OpArrow", "OpIn", "OpNullCoal"]
  | "Unop" => ["OpIncrement", "OpDecrement", "OpNot", "OpNeg", "OpNegBits", "OpSpread"]
  | "QuoteStatus" => ["Unquoted", "Quoted"]
  | "FunctionKind" => ["FAnonymous", "FNamed", "FArrow"]
  | "TypeParam" => ["TPType", "TPExpr"]
  | "ComplexType" => ["TPath", "TFunction", "TAnonymous", "TParent", "", "TOptional", "TNamed"]
  | "Access" => ["APublic", "APrivate", "AStatic", "AOverride", "ADynamic", "AInline", "AMacro",
      "AFinal", "AExtern"]
  | "FieldType" => ["FVar", "FFun", "FProp"]
  | "TypeDefKind" => ["TDEnum", "TDStructure", "TDClass", "TDAlias", "TDAbstract"]
  | "Type" => ["TMono", "TEnum", "TInst", "TType", "TFun", "TAnonymous", "TDynamic", "",
      "TAbstract"]
  | _ => []

/-- The arguments that a constructor has after those that readers look at. -/
def unread : (type constructor : String) → List Value
  | "FunctionKind", "FNamed" => [.bool false]
  | "Type", "TDynamic" => [.null]
  | _, _ => []

def standardEnum (type constructor : String) (args : List Value) : Value :=
  .enum type constructor ((constructors type).idxOf constructor) (args ++ unread type constructor)

/-- A value without parts. All file numbers that mark a null position become -1, and the number of
an unknown type becomes a word. -/
def Kind.plainForm : Kind → Value → Value
  | file, .int i => if i.toInt < 0 ∨ i.toInt = 4294967295 then .int (-1) else .int i
  | int, .int i => .int (Int64.ofNat (i.toUInt64.toNat % 4294967296))
  | optional k, v => k.plainForm v
  | _, v => v

/-! ## The form -/

def Kind.rebuild (k : Kind) (v : Value) (parts : List Value) : Value :=
  match v, k.shape with
  | .null, _ => k.absent
  | .object _, .object _ fields => .object ((fields.map Prod.fst).zip parts)
  | .enum t c _ _, .enum _ _ => standardEnum t c parts
  | .array _, .array _ => .array parts
  | v, _ => k.plainForm v

/-- The standard form of a value, if it is one of the kind: every part that the table names stands in
its place, a missing one as null, and a null as what it stands for. -/
def Kind.standard? (k : Kind) (v : Value) : Option Value :=
  match _h : k.inspect v with
  | .error _ => none
  | .ok parts =>
    (parts.attach.mapM fun (p : Subtype (· ∈ parts)) =>
      match _hw : p.val.value with
      | none => none
      | some w => standard? p.val.kind w).map (k.rebuild v)
termination_by v.depth
decreasing_by exact Kind.depth_inspect_lt _h p.property _hw

def Part.standard? (p : Part) : Option Value := p.value.bind p.kind.standard?

def Kind.standardOf (k : Kind) (v : Value) :
    Except (String × String) (List Part) → Option Value
  | .error _ => none
  | .ok parts => (parts.mapM Part.standard?).map (k.rebuild v)

namespace Kind

theorem standard?_eq (k : Kind) (v : Value) : k.standard? v = k.standardOf v (k.inspect v) := by
  rw [standard?]
  split <;> rename_i h <;> rw [h]
  · rfl
  · rename_i parts
    rw [standardOf, List.mapM_subtype (g := Part.standard?), List.unattach_attach]
    intro p hp
    simp only [Part.standard?]
    split <;> rename_i hw <;> rw [hw] <;> rfl

theorem standard?_null {k : Kind} (hk : k.acceptsNull = true) :
    k.standard? .null = some k.absent := by
  rw [standard?_eq, inspect, hk]
  cases hs : k.shape <;> simp [standardOf, rebuild, Value.isNull]

theorem rebuild_optional {v : Value} (hv : v ≠ .null) (k : Kind) :
    (optional k).rebuild v = k.rebuild v := by
  funext parts
  cases v with
  | null => exact absurd rfl hv
  | _ => cases hs : k.shape <;> simp only [rebuild, shape, plainForm, hs]

end Kind

end HaxeMacro
