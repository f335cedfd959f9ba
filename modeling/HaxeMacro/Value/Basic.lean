import HaxeMacro.Entries

/-! # Values of macro code

The values that a program and its macros exchange: a closed set, so that every reader of values is
total over it.
-/

namespace HaxeMacro

inductive Value where
  | null
  | bool (b : Bool)
  | int (i : Int64)
  | float (x : Float)
  | string (s : String)
  /-- An anonymous object, its fields in the order of their declaration. -/
  | object (fields : List (String × Value))
  /-- A function of the running macro code, known by its name. -/
  | function (name : String) (arity : Nat)
  | array (items : List Value)
  /-- `index` numbers the constructors of an enum from zero. -/
  | enum (type constructor : String) (index : Nat) (args : List Value)
  deriving Inhabited

abbrev Fields := Entries String Value

/-- The value of a field; a missing one reads as null. -/
def Fields.get (fields : Fields) (name : String) : Value := (Entries.get? fields name).getD .null

namespace Value

def ofFields (settings : List (String × Value)) : Value := .object (Entries.ofList settings)

def typeName : Value → String
  | null => "Null"
  | bool _ => "Bool"
  | int _ => "Int"
  | float _ => "Float"
  | string _ => "String"
  | object _ => "Object"
  | function .. => "Function"
  | array _ => "Array"
  | enum .. => "Enum"

def isNull : Value → Bool
  | null => true
  | _ => false

/-- What counts as true in a condition. -/
def isTruthy : Value → Bool
  | null => false
  | bool b => b
  | int i => i != 0
  | float x => x != 0.0
  | string s => s != ""
  | _ => true

def int? : Value → Option Int64
  | int i => some i
  | _ => none

def float? : Value → Option Float
  | float x => some x
  | int i => some i.toFloat
  | _ => none

def string? : Value → Option String
  | string s => some s
  | _ => none

def array? : Value → Option (List Value)
  | array items => some items
  | _ => none

def object? : Value → Option Fields
  | object fields => some fields
  | _ => none

/-! ## Equality

Values are equal as programs compare them: floats by their numbers, so that NaN differs from itself,
and objects whatever the order of their fields.
-/

mutual

def same : Value → Value → Bool
  | null, null => true
  | bool a, bool b => a == b
  | int a, int b => a == b
  | float a, float b => a == b
  | string a, string b => a == b
  | object a, object b => a.length == b.length && sameFields a b
  | function n a, function m b => n == m && a == b
  | array a, array b => sameItems a b
  | enum t c i a, enum u d j b => t == u && c == d && i == j && sameItems a b
  | _, _ => false

def sameItems : List Value → List Value → Bool
  | [], [] => true
  | v :: vs, w :: ws => same v w && sameItems vs ws
  | _, _ => false

/-- Whether every field on the left has an equal one on the right. -/
def sameFields : List (String × Value) → List (String × Value) → Bool
  | [], _ => true
  | (name, v) :: rest, other =>
    (match Entries.get? other name with
      | some w => same v w
      | none => false) && sameFields rest other

end

instance : BEq Value := ⟨same⟩

end Value

end HaxeMacro
