import HaxeMacro.Entries
import HaxeMacro.Value.Basic

/-! # Environments

The variables of running macro code in their scopes.
-/

namespace HaxeMacro

/-- Scopes with their variables, the innermost scope first. -/
abbrev Env := List (Entries String Value)

namespace Env

def empty : Env := [[]]

def enter (env : Env) : Env := [] :: env

/-- Leaves the innermost scope; the outermost one is never left. -/
def leave : Env → Env
  | _ :: scope :: scopes => scope :: scopes
  | env => env

def get? (env : Env) (name : String) : Option Value :=
  match env with
  | [] => none
  | scope :: scopes =>
    match Entries.get? scope name with
    | some v => some v
    | none => get? scopes name

def declare (env : Env) (name : String) (v : Value) : Env :=
  match env with
  | [] => []
  | scope :: scopes => Entries.set scope name v :: scopes

def assign? (env : Env) (name : String) (v : Value) : Option Env :=
  match env with
  | [] => none
  | scope :: scopes =>
    if Entries.has scope name then some (Entries.set scope name v :: scopes)
    else (assign? scopes name v).map (scope :: ·)

end Env

end HaxeMacro
