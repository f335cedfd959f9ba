import HaxeMacro.Program.Module

/-! # The modules that exist

Every module that was ever made has a number. A type checker that has loaded a module, and a
compilation that has published it, know it by its number, so that both see what filters change.
-/

namespace HaxeMacro

abbrev ModuleId := Nat

/-- All modules by their numbers, and what the type checkers and runtimes of all compilations
share. -/
structure World (G : Type) where
  modules : List ModuleDef
  host : G

namespace World

variable {G : Type}

def module? (w : World G) (id : ModuleId) : Option ModuleDef := w.modules[id]?

/-- Adds a module; its number is the number of modules before it. -/
def add (w : World G) (m : ModuleDef) : ModuleId × World G :=
  (w.modules.length, { w with modules := w.modules ++ [m] })

def put (w : World G) (id : ModuleId) (m : ModuleDef) : World G :=
  { w with modules := w.modules.set id m }

theorem module?_put_of_ne (w : World G) {id other : ModuleId} (h : id ≠ other) (m : ModuleDef) :
    (w.put id m).module? other = w.module? other := by
  simp [module?, put, h]

end World

end HaxeMacro
