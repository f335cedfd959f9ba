import HaxeMacro.Fragment.Printer
import HaxeMacro.Listing.Fragment
import HaxeMacro.Program.Module

/-! # Listing values, types and modules

Values are listed so that nothing of them is lost: whole numbers that other tools would round are
listed as text, and floats by their bits.
-/

namespace HaxeMacro

namespace Listing

open JsonTree (text texts flag)

/-! ## Values -/

/-- The sixteen digits of the bits of a float. -/
def floatBits (x : Float) : String :=
  let digits := Nat.toDigits 16 x.toBits.toNat
  String.ofList (List.replicate (16 - digits.length) '0' ++ digits)

mutual

def value : Value → JsonTree
  | .null => .null
  | .bool b => flag b
  | .int i =>
    if i.toInt.natAbs < 9007199254740992 then .atom (wholeText i)
    else .object [("i", text (wholeText i))]
  | .float x => .object [("f", text (if x.isNaN then "nan" else floatBits x))]
  | .string s => text s
  | .array items => .array (values items)
  | .object fields => .object [("o", .array (valueFields fields))]
  | .enum type constructor index args =>
    .object [("e", .array [text type, text constructor, .number index, .array (values args)])]
  | .function name arity => .object [("fn", .array [text name, .number arity])]

def values : List Value → List JsonTree
  | [] => []
  | v :: vs => value v :: values vs

def valueFields : List (String × Value) → List JsonTree
  | [] => []
  | (name, v) :: rest => .array [text name, value v] :: valueFields rest

end

/-! ## Types -/

mutual

def type : Ty → JsonTree
  | .mono id => .array [text "Mono", .number id.toNat]
  | .dynamic => text "Dynamic"
  | .inst path args => .array [text "Inst", texts path.segments, .array (types args)]
  | .enum path args => .array [text "Enum", texts path.segments, .array (types args)]
  | .abstract path args => .array [text "Abstract", texts path.segments, .array (types args)]
  | .synonym path args => .array [text "Def", texts path.segments, .array (types args)]
  | .func params ret => .array [text "Fun", .array (tyParams params), type ret]
  | .anon fields => .array [text "Anon", .array (anonFields fields)]

def types : List Ty → List JsonTree
  | [] => []
  | t :: ts => type t :: types ts

def tyParams : List TyParam → List JsonTree
  | [] => []
  | ⟨name, optional, t⟩ :: ps => .array [text name, flag optional, type t] :: tyParams ps

def anonFields : List (String × Ty) → List JsonTree
  | [] => []
  | (name, t) :: fs => .array [text name, type t] :: anonFields fs

end

def path (p : Path) : JsonTree := text p.text

def paths (ps : List Path) : JsonTree := .list path ps

/-! ## Classes -/

def body (b : TypedExpr) : JsonTree := .array [text b.expr.text, type b.type, expr b.expr]

/-- Metadata as it is written. -/
def annotations (ms : List Metadata) : JsonTree := .list (fun m => text m.text) ms

def member (m : Member) : JsonTree :=
  .array [text m.name, text (if m.isMethod then "Method" else "Var"), type m.type, position m.pos,
    annotations m.annotations, .option body m.body]

/-- What filters may change of a class. -/
def snapshotFields (s : Snapshot) : List (String × JsonTree) := [
  ("path", path s.path), ("meta", annotations s.annotations), ("descendants", paths s.descendants),
  ("fields", .list member s.fields), ("statics", .list member s.statics),
  ("ctor", .option member s.constructor), ("init", .option body s.init)]

def classDef (c : ClassDef) : JsonTree := .object (snapshotFields c.snapshot ++ [
  ("module", path c.module), ("pos", position c.pos), ("params", texts c.params),
  ("extern", flag c.isExtern), ("interface", flag c.isInterface),
  ("super", .option (fun s => .array [path s.1, .array (types s.2)]) c.super),
  ("applied", flag c.filtered), ("excluded", flag c.excluded), ("deps", paths c.cacheDependencies),
  ("restore", .option (fun s => .object (snapshotFields s)) c.restore)])

/-! ## Modules -/

def moduleType : ModuleType → JsonTree
  | .classType c => .object [("class", classDef c)]
  | .enum p => .object [("enum", path p)]
  | .synonym p t => .object [("typedef", .array [path p, type t])]
  | .abstract p => .object [("abstract", path p)]

def module (m : ModuleDef) : JsonTree := .object [
  ("path", path m.path), ("types", .list moduleType m.types),
  ("primary", .option (fun t => path t.path) m.primary?)]

end Listing

end HaxeMacro
