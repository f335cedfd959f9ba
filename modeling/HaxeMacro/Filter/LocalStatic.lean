import HaxeMacro.Filter.Basic
import HaxeMacro.Fragment.Traversal

/-! # Static locals

`static var x` inside a body of the field `f` becomes the class static `f_x`. Function literals keep
their own static locals.
-/

namespace HaxeMacro

namespace Filter

/-- Takes the static variables out of an expression that declares variables; function literals stay
as they are. -/
def takeStatics : Expr → Option (StateM (List Var) Expr)
  | ⟨.function kind func, pos⟩ => some (pure ⟨.function kind func, pos⟩)
  | ⟨.vars vs, pos⟩ => some do
    modify (· ++ vs.filter (·.isStatic))
    match vs.filter (fun v => !v.isStatic) with
    | [] => return ⟨.block [], pos⟩
    | locals => return ⟨.vars locals, pos⟩
  | _ => none

/-- A body without its static variables, and these variables. -/
def splitStatics (body : Expr) : Expr × List Var := (body.mapOutermost takeStatics).run []

structure Hoisting where
  taken : List String
  hoisted : List Member
  failure : Option FilterError

namespace Hoisting

/-- The static that a static variable of a body becomes. -/
def member (name : String) (v : Var) (pos : Position) : Member :=
  { Member.var name .dynamic (v.init.map fun e => ⟨e, .dynamic⟩) with pos }

def conflict (field name : String) (v : Var) (pos : Position) : FilterError :=
  ⟨"local-static",
    "Static local " ++ v.name ++ " in " ++ field ++ " conflicts with field " ++ name, pos⟩

/-- Adds the static variables of a body, and answers with the new names of the variables. -/
def add (field : String) (pos : Position) (h : Hoisting) :
    List Var → Hoisting × Entries String String
  | [] => (h, [])
  | v :: vs =>
    let name := field ++ "_" ++ v.name
    if name ∈ h.taken then ({ h with failure := some (conflict field name v pos) }, [])
    else
      let (h, renames) := add field pos
        { h with taken := name :: h.taken, hoisted := h.hoisted ++ [member name v pos] } vs
      (h, (v.name, name) :: renames)

/-- Takes the static variables out of one body. After a failure bodies stay as they are. -/
def body (field : String) (e : Expr) : StateM Hoisting Expr := do
  let h ← get
  if h.failure.isSome then return e
  let (stripped, vs) := splitStatics e
  let (h, renames) := h.add field e.pos vs
  set h
  if h.failure.isSome || renames.isEmpty then return stripped
  -- The last variable of a name gives the name of all its uses.
  return stripped.renameIdents fun name => (Entries.get? renames.reverse name).getD name

end Hoisting

def localStatic (c : ClassDef) : Filtered :=
  let start : Hoisting := ⟨c.statics.map (·.name) ++ c.fields.map (·.name), [], none⟩
  let (c, h) := (c.visitBodies Hoisting.body).run start
  match h.failure with
  | some e => (c, .error e)
  | none => ({ c with statics := c.statics ++ h.hoisted }, .ok h.hoisted.length)

end Filter

end HaxeMacro
