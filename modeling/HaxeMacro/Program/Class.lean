import HaxeMacro.Program.Ty

/-! # Classes of the program

A class after typing. A class that macros produced is filtered before the program sees it; what it
was before is kept in a snapshot, so that it can be taken back.
-/

namespace HaxeMacro

structure TypedExpr where
  expr : Expr
  type : Ty

inductive MemberKind where
  | method | var
  deriving DecidableEq, Repr, Inhabited

structure Member where
  name : String
  type : Ty
  kind : MemberKind
  pos : Position
  annotations : List Metadata
  body : Option TypedExpr

namespace Member

/-- A method that was not declared in any source. -/
def method (name : String) (type : Ty) (body : Option TypedExpr) : Member :=
  ⟨name, type, .method, .null, [], body⟩

def var (name : String) (type : Ty) (init : Option TypedExpr) : Member :=
  ⟨name, type, .var, .null, [], init⟩

def isMethod (m : Member) : Bool := m.kind == .method

end Member

/-- What filters may change of a class. -/
structure Snapshot where
  path : Path
  annotations : List Metadata
  descendants : List Path
  fields : List Member
  statics : List Member
  constructor : Option Member
  init : Option TypedExpr

structure ClassDef where
  path : Path
  module : Path
  pos : Position
  annotations : List Metadata
  params : List String
  isExtern : Bool
  isInterface : Bool
  super : Option (Path × List Ty)
  fields : List Member
  statics : List Member
  constructor : Option Member
  init : Option TypedExpr
  descendants : List Path
  /-- Whether the bodies of the class were filtered. -/
  filtered : Bool
  /-- Whether nothing is generated for the class. -/
  excluded : Bool
  /-- The types with which the class has to be compiled again. -/
  cacheDependencies : List Path
  restore : Option Snapshot

namespace ClassDef

def empty (path module : Path) : ClassDef where
  path := path
  module := module
  pos := .null
  annotations := []
  params := []
  isExtern := false
  isInterface := false
  super := none
  fields := []
  statics := []
  constructor := none
  init := none
  descendants := []
  filtered := false
  excluded := false
  cacheDependencies := []
  restore := none

def static? (c : ClassDef) (name : String) : Option Member := c.statics.find? (·.name == name)

def field? (c : ClassDef) (name : String) : Option Member := c.fields.find? (·.name == name)

def hasAnnotation (c : ClassDef) (name : String) : Bool := c.annotations.any (·.name == name)

def members (c : ClassDef) : List Member := c.fields ++ c.statics ++ c.constructor.toList

/-! ## Snapshots -/

def snapshot (c : ClassDef) : Snapshot where
  path := c.path
  annotations := c.annotations
  descendants := c.descendants
  fields := c.fields
  statics := c.statics
  constructor := c.constructor
  init := c.init

/-- The class as it was when the snapshot was taken. -/
def restoreFrom (c : ClassDef) (s : Snapshot) : ClassDef :=
  { c with
    path := s.path
    annotations := s.annotations
    descendants := s.descendants
    fields := s.fields
    statics := s.statics
    constructor := s.constructor
    init := s.init
    filtered := false
    excluded := false }

def restored (c : ClassDef) : ClassDef :=
  match c.restore with
  | none => c
  | some s => c.restoreFrom s

/-! ## Bodies -/

section
variable {m : Type → Type} [Monad m] (visit : String → Expr → m Expr)

def visitBody (name : String) : Option TypedExpr → m (Option TypedExpr)
  | none => pure none
  | some body => do return some { body with expr := ← visit name body.expr }

def visitMember (member : Member) : m Member := do
  return { member with body := ← visitBody visit member.name member.body }

/-- Replaces all bodies, each with the name of its field: the fields first, then the statics, the
constructor and the initializer of the class. -/
def visitBodies (c : ClassDef) : m ClassDef := do
  let fields ← c.fields.mapM (visitMember visit)
  let statics ← c.statics.mapM (visitMember visit)
  let constructor ← match c.constructor with
    | none => pure none
    | some member => do pure (some (← visitMember visit member))
  let init ← visitBody visit "__init__" c.init
  return { c with fields, statics, constructor, init }

end

/-- Replaces all bodies and adds up what the replacements count. -/
def countBodies (f : Expr → Expr × Nat) (c : ClassDef) : ClassDef × Nat :=
  (c.visitBodies fun _ body =>
    let (new, count) := f body
    (do modify (· + count); pure new : StateM Nat Expr)).run 0

end ClassDef

end HaxeMacro
