import HaxeMacro.Filter.Basic

/-! # Filters on whole classes

What a class itself must look like: templates are not generated, exceptions have a constructor,
variables are initialized in the constructor, an extern class has its native path. The filters also
note the types a class depends on and keep its snapshot.
-/

namespace HaxeMacro

namespace Filter

/-! ## Templates -/

/-- Of a class marked `@:generic` only the specializations are generated. -/
def stripGenericBase (c : ClassDef) : Filtered :=
  if c.excluded || c.params.isEmpty || !c.hasAnnotation ":generic" then .done (c, 0)
  else .done ({ c with excluded := true }, 1)

/-! ## Constructors of exceptions -/

def exceptionPath : Path := ⟨["haxe"], "Exception"⟩

/-- `new(message, ?previous)`, which hands both to the base constructor. -/
def exceptionConstructor (pos : Position) : Member :=
  let type : Ty := .func
    [⟨"message", false, .string⟩, ⟨"previous", true, .inst exceptionPath []⟩] .void
  let call : Expr :=
    ⟨.call (.ident "super" pos) [.ident "message" pos, .ident "previous" pos], pos⟩
  { Member.method "new" type (some ⟨⟨.block [call], pos⟩, .void⟩) with pos }

/-- An exception class that declares no constructor takes over that of its base. -/
def addExceptionConstructor (c : ClassDef) : Filtered :=
  let isException := c.super.any fun s => s.1 == exceptionPath
  if !isException || c.constructor.isSome || c.isExtern then .done (c, 0)
  else .done ({ c with constructor := some (exceptionConstructor c.pos) }, 1)

/-! ## Initial values -/

def hasInit (m : Member) : Bool := !m.isMethod && m.body.isSome

def initAssignment (m : Member) : Option Expr :=
  if m.isMethod then none
  else m.body.map fun init =>
    ⟨.binary .assign ⟨.field (.ident "this" m.pos) m.name, m.pos⟩ init.expr, m.pos⟩

def dropInit (m : Member) : Member := if m.isMethod then m else { m with body := none }

def prepend (statements : List Expr) (pos : Position) (body : TypedExpr) : TypedExpr :=
  match body.expr with
  | ⟨.block items, p⟩ => { body with expr := ⟨.block (statements ++ items), p⟩ }
  | e => { body with expr := ⟨.block (statements ++ [e]), pos⟩ }

def emptyBody (pos : Position) : TypedExpr := ⟨⟨.block [], pos⟩, .void⟩

def emptyConstructor (pos : Position) : Member :=
  .method "new" (.func [] .void) (some (emptyBody pos))

/-- The initial values of variables are assigned at the start of the constructor. -/
def fieldInit (c : ClassDef) : Filtered :=
  if c.isExtern || c.isInterface then .done (c, 0)
  else
    match c.fields.filterMap initAssignment with
    | [] => .done (c, 0)
    | assignments =>
      let ctor := c.constructor.getD (emptyConstructor c.pos)
      let body := ctor.body.getD (emptyBody c.pos)
      .done ({ c with
        fields := c.fields.map dropInit
        constructor := some { ctor with body := some (prepend assignments c.pos body) } },
        assignments.length)

/-! ## Dependencies -/

def namedPaths (c : ClassDef) : List Path :=
  (match c.super with
    | none => []
    | some (path, args) => path :: args.flatMap Ty.paths) ++
  c.members.flatMap (·.type.paths)

/-- The types with which a class has to be compiled again. Types that are not known yet stay
open. -/
def cacheDependencies (c : ClassDef) : Filtered :=
  let paths := Path.sortDistinct ((namedPaths c).filter (· != c.path))
  .done ({ c with cacheDependencies := paths }, if paths = c.cacheDependencies then 0 else 1)

/-! ## Snapshots -/

/-- Keeps the snapshot, unless the class has one. -/
def recordSnapshot (cx : FilterContext) (c : ClassDef) : Filtered :=
  if c.restore.isSome then .done (c, 0)
  else .done ({ c with restore := cx.snapshot }, if cx.snapshot.isSome then 1 else 0)

/-! ## Native paths -/

/-- The path in `@:native("pack.Name")`. -/
def nativePath? (c : ClassDef) : Option Path :=
  match (c.annotations.find? (·.name == ":native")).bind fun m => m.args.head? with
  | some ⟨.const (.string text _), _⟩ => some (Path.ofText text)
  | _ => none

/-- An extern class takes its native path. -/
def nativePath (c : ClassDef) : Filtered :=
  if !c.isExtern then .done (c, 0)
  else
    match nativePath? c with
    | some path => if path = c.path then .done (c, 0) else .done ({ c with path }, 1)
    | none => .done (c, 0)

end Filter

end HaxeMacro
