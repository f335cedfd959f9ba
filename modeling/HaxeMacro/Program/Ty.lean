import HaxeMacro.Program.Path
import HaxeMacro.Value.Text

/-! # Types of the program

Types as the type checker knows them, with their names resolved to paths.
-/

namespace HaxeMacro

mutual

inductive Ty where
  /-- A type variable that is not bound yet. -/
  | mono (id : UInt32)
  | dynamic
  | inst (path : Path) (args : List Ty)
  | enum (path : Path) (args : List Ty)
  | abstract (path : Path) (args : List Ty)
  | synonym (path : Path) (args : List Ty)
  | func (params : List TyParam) (ret : Ty)
  | anon (fields : List (String × Ty))

/-- A parameter of a function type. -/
structure TyParam where
  name : String
  optional : Bool
  type : Ty

end

namespace Ty

/-! ## Known types -/

def array (item : Ty) : Ty := .inst ⟨[], "Array"⟩ [item]
def int : Ty := .abstract ⟨[], "Int"⟩ []
def float : Ty := .abstract ⟨[], "Float"⟩ []
def bool : Ty := .abstract ⟨[], "Bool"⟩ []
def void : Ty := .abstract ⟨[], "Void"⟩ []
def string : Ty := .inst ⟨[], "String"⟩ []

/-- The type of expressions that macros exchange. -/
def macroExpr : Ty := .synonym ⟨["haxe", "macro"], "Expr"⟩ []

/-- The type of class fields that macros exchange. -/
def macroField : Ty := .synonym ⟨["haxe", "macro"], "Field"⟩ []

/-- The type of resolved types that macros exchange. -/
def macroType : Ty := .enum ⟨["haxe", "macro"], "Type"⟩ []

/-- The type of written types that macros exchange. -/
def macroComplexType : Ty := .enum ⟨["haxe", "macro"], "ComplexType"⟩ []

/-! ## Questions -/

def isFunction : Ty → Bool
  | .func .. => true
  | _ => false

/-- The `T` of `haxe.Rest<T>`. -/
def restItem? : Ty → Option Ty
  | .abstract path [item] => if path = ⟨["haxe"], "Rest"⟩ then some item else none
  | _ => none

/-- The path of a named type. -/
def path? : Ty → Option Path
  | .inst path _ | .enum path _ | .abstract path _ | .synonym path _ => some path
  | _ => none

mutual

/-- Every path that is named in a type, at any depth. -/
def paths : Ty → List Path
  | .mono _ | .dynamic => []
  | .inst path args | .enum path args | .abstract path args | .synonym path args =>
    path :: pathsOfTypes args
  | .func params ret => pathsOfParams params ++ ret.paths
  | .anon fields => pathsOfFields fields

def pathsOfTypes : List Ty → List Path
  | [] => []
  | t :: ts => t.paths ++ pathsOfTypes ts

def pathsOfParams : List TyParam → List Path
  | [] => []
  | ⟨_, _, t⟩ :: ps => t.paths ++ pathsOfParams ps

def pathsOfFields : List (String × Ty) → List Path
  | [] => []
  | (_, t) :: fs => t.paths ++ pathsOfFields fs

end

/-! ## Equality -/

mutual

/-- Whether two types are the same. -/
def same : Ty → Ty → Bool
  | .mono a, .mono b => a == b
  | .dynamic, .dynamic => true
  | .inst p ts, .inst q us | .enum p ts, .enum q us | .abstract p ts, .abstract q us
  | .synonym p ts, .synonym q us => p == q && sameTypes ts us
  | .func ps r, .func qs s => sameParams ps qs && same r s
  | .anon fs, .anon gs => sameFields fs gs
  | _, _ => false

def sameTypes : List Ty → List Ty → Bool
  | [], [] => true
  | t :: ts, u :: us => same t u && sameTypes ts us
  | _, _ => false

def sameParams : List TyParam → List TyParam → Bool
  | [], [] => true
  | ⟨n, o, t⟩ :: ps, ⟨m, p, u⟩ :: qs => n == m && o == p && same t u && sameParams ps qs
  | _, _ => false

def sameFields : List (String × Ty) → List (String × Ty) → Bool
  | [], [] => true
  | (n, t) :: fs, (m, u) :: gs => n == m && same t u && sameFields fs gs
  | _, _ => false

end

instance : BEq Ty := ⟨same⟩

mutual

theorem same_self : (t : Ty) → same t t = true
  | .mono _ => by rw [same, beq_self_eq_true]
  | .dynamic => by rw [same]
  | .inst _ ts | .enum _ ts | .abstract _ ts | .synonym _ ts => by
    rw [same, beq_self_eq_true, sameTypes_self ts, Bool.and_self]
  | .func ps ret => by rw [same, sameParams_self ps, same_self ret, Bool.and_self]
  | .anon fs => by rw [same, sameFields_self fs]

theorem sameTypes_self : (ts : List Ty) → sameTypes ts ts = true
  | [] => by rw [sameTypes]
  | t :: ts => by rw [sameTypes, same_self t, sameTypes_self ts, Bool.and_self]

theorem sameParams_self : (ps : List TyParam) → sameParams ps ps = true
  | [] => by rw [sameParams]
  | ⟨name, optional, t⟩ :: ps => by simp [sameParams, same_self t, sameParams_self ps]

theorem sameFields_self : (fs : List (String × Ty)) → sameFields fs fs = true
  | [] => by rw [sameFields]
  | (name, t) :: fs => by simp [sameFields, same_self t, sameFields_self fs]

end

mutual

theorem eq_of_same : (t u : Ty) → same t u = true → t = u
  | .mono _, u, h => by cases u <;> simp_all [same]
  | .dynamic, u, h => by cases u <;> simp_all [same]
  | .inst _ ts, u, h => by
    cases u <;> simp only [same, Bool.and_eq_true, beq_iff_eq, Bool.false_eq_true] at h
    rw [h.1, eq_of_sameTypes ts _ h.2]
  | .enum _ ts, u, h => by
    cases u <;> simp only [same, Bool.and_eq_true, beq_iff_eq, Bool.false_eq_true] at h
    rw [h.1, eq_of_sameTypes ts _ h.2]
  | .abstract _ ts, u, h => by
    cases u <;> simp only [same, Bool.and_eq_true, beq_iff_eq, Bool.false_eq_true] at h
    rw [h.1, eq_of_sameTypes ts _ h.2]
  | .synonym _ ts, u, h => by
    cases u <;> simp only [same, Bool.and_eq_true, beq_iff_eq, Bool.false_eq_true] at h
    rw [h.1, eq_of_sameTypes ts _ h.2]
  | .func ps ret, u, h => by
    cases u <;> simp only [same, Bool.and_eq_true, Bool.false_eq_true] at h
    rw [eq_of_sameParams ps _ h.1, eq_of_same ret _ h.2]
  | .anon fs, u, h => by
    cases u <;> simp only [same, Bool.false_eq_true] at h
    rw [eq_of_sameFields fs _ h]

theorem eq_of_sameTypes : (ts us : List Ty) → sameTypes ts us = true → ts = us
  | [], [], _ => rfl
  | [], _ :: _, h | _ :: _, [], h => by simp [sameTypes] at h
  | t :: ts, u :: us, h => by
    rw [sameTypes, Bool.and_eq_true] at h
    rw [eq_of_same t u h.1, eq_of_sameTypes ts us h.2]

theorem eq_of_sameParams : (ps qs : List TyParam) → sameParams ps qs = true → ps = qs
  | [], [], _ => rfl
  | [], _ :: _, h | _ :: _, [], h => by simp [sameParams] at h
  | ⟨n, o, t⟩ :: ps, ⟨m, p, u⟩ :: qs, h => by
    simp only [sameParams, Bool.and_eq_true, beq_iff_eq] at h
    obtain ⟨⟨⟨hname, hoptional⟩, htype⟩, hrest⟩ := h
    rw [hname, hoptional, eq_of_same t u htype, eq_of_sameParams ps qs hrest]

theorem eq_of_sameFields : (fs gs : List (String × Ty)) → sameFields fs gs = true → fs = gs
  | [], [], _ => rfl
  | [], _ :: _, h | _ :: _, [], h => by simp [sameFields] at h
  | (n, t) :: fs, (m, u) :: gs, h => by
    simp only [sameFields, Bool.and_eq_true, beq_iff_eq] at h
    obtain ⟨⟨hname, htype⟩, hrest⟩ := h
    rw [hname, eq_of_same t u htype, eq_of_sameFields fs gs hrest]

end

instance : LawfulBEq Ty where
  eq_of_beq := eq_of_same _ _
  rfl := same_self _

/-! ## Text -/

/-- Arguments of a generic type between angle brackets. -/
def bracketArgs : List String → String
  | [] => ""
  | parts => "<" ++ separated ", " parts ++ ">"

mutual

/-- How messages write a type. -/
def text : Ty → String
  | .mono id => "Unknown<" ++ toString id.toNat ++ ">"
  | .dynamic => "Dynamic"
  | .inst path args | .enum path args | .abstract path args | .synonym path args =>
    path.text ++ bracketArgs (textOfTypes args)
  | .func [] ret => "Void -> " ++ ret.text
  | .func (p :: ps) ret => separated " -> " (textOfParams (p :: ps)) ++ " -> " ++ ret.text
  | .anon fields => "\x7b " ++ separated ", " (textOfFields fields) ++ " \x7d"

def textOfTypes : List Ty → List String
  | [] => []
  | t :: ts => t.text :: textOfTypes ts

def textOfParams : List TyParam → List String
  | [] => []
  | ⟨_, optional, t⟩ :: ps => ((if optional then "?" else "") ++ t.text) :: textOfParams ps

def textOfFields : List (String × Ty) → List String
  | [] => []
  | (name, t) :: fs => (name ++ " : " ++ t.text) :: textOfFields fs

end

end Ty

end HaxeMacro
