import HaxeMacro.Program.Class

/-! # Modules of the program -/

namespace HaxeMacro

inductive ModuleType where
  | classType (c : ClassDef)
  | enum (path : Path)
  | synonym (path : Path) (type : Ty)
  | abstract (path : Path)

namespace ModuleType

def path : ModuleType → Path
  | classType c => c.path
  | enum path | synonym path _ | abstract path => path

def class? : ModuleType → Option ClassDef
  | classType c => some c
  | _ => none

def mapClass (f : ClassDef → ClassDef) : ModuleType → ModuleType
  | classType c => classType (f c)
  | t => t

end ModuleType

structure ModuleDef where
  path : Path
  types : List ModuleType

namespace ModuleDef

def primary? (m : ModuleDef) : Option ModuleType := m.types.find? (·.path == m.path)

/-- The class at a path; a type of another kind that comes first hides it. -/
def class? (m : ModuleDef) (path : Path) : Option ClassDef :=
  (m.types.find? (·.path == path)).bind ModuleType.class?

def classes (m : ModuleDef) : List ClassDef := m.types.filterMap ModuleType.class?

def restored (m : ModuleDef) : ModuleDef :=
  { m with types := m.types.map (·.mapClass ClassDef.restored) }

def restorable (m : ModuleDef) : Nat := (m.classes.filter (·.restore.isSome)).length

end ModuleDef

end HaxeMacro
