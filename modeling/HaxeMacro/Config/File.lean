import HaxeMacro.Config.Basic
import HaxeMacro.Config.TomlReader

/-! # Settings files

The sections `[build]` and `[macro]` of `rayzor.toml`. Settings that are left out keep their
defaults, and those that are unknown are passed over.
-/

namespace HaxeMacro

inductive ConfigError where
  | missing
  | malformed
  deriving DecidableEq, Repr

def ConfigError.message : ConfigError → String
  | missing => "Failed to read rayzor.toml"
  | malformed => "Failed to parse rayzor.toml"

namespace Toml

def string? : Toml → Option String
  | string s => some s
  | _ => none

def bool? : Toml → Option Bool
  | bool b => some b
  | _ => none

def strings? : Toml → Option (List String)
  | array items => items.mapM string?
  | _ => none

/-- The entries of a table, or of the one that stands for a date. -/
def entries? : Toml → Option (List (String × Toml))
  | table entries => some entries
  | datetime d => some (dateEntries d)
  | _ => none

/-- The definitions of a section. -/
def defines? (t : Toml) : Option (List (String × Toml)) := do withDatesEntries? (← t.entries?)

/-- A setting that keeps its default when it is left out. -/
def orDefault {α : Type} (default : α) (read : Toml → Option α) : Option Toml → Option α
  | none => some default
  | some t => read t

/-- The settings of a section, by their names or in their order. -/
def setting (names : List String) (i : Nat) : Toml → Option Toml
  | table entries => get? (names[i]?.getD "") entries
  | array items => items[i]?
  | _ => none

/-- Whether a value can be a section; one that is written in order has at least `least` settings. -/
def isSection (least : Nat) : Toml → Bool
  | table _ | datetime _ => true
  | array items => least ≤ items.length
  | _ => false

/-- The text of a definition: a string stands for itself, true for one, and a date is written as the
table that stands for it. -/
def define : Toml → String
  | string s => s
  | bool true => "1"
  | datetime d => (table (dateEntries d)).text
  | t => t.text

end Toml

namespace Config

def withBuild (c : Config) (t : Toml) : Option Config := do
  if !t.isSection 3 then failure
  let at? := t.setting ["class-paths", "std-root", "defines"]
  let classPaths ← Toml.orDefault [] Toml.strings? (at? 0)
  let stdRoot ← Toml.orDefault c.stdRoot Toml.string? (at? 1)
  let defines ← Toml.orDefault [] Toml.defines? (at? 2)
  return { c with
    classPaths, stdRoot
    defines := Entries.ofList (defines.map fun d => (d.1, d.2.define)) }

def withMacros (c : Config) (t : Toml) : Option Config := do
  if !t.isSection 0 then failure
  let at? := t.setting ["std-root", "dump-dir", "reuse-runtime"]
  let stdRoot ← Toml.orDefault c.macros.stdRoot Toml.string? (at? 0)
  let dump ← Toml.orDefault c.macros.dump.path Toml.string? (at? 1)
  let reuseRuntime ← Toml.orDefault c.macros.reuseRuntime Toml.bool? (at? 2)
  return { c with macros := { stdRoot, dump := ⟨dump, true⟩, reuseRuntime } }

def withSection (entries : List (String × Toml)) (name : String)
    (read : Config → Toml → Option Config) (c : Config) : Option Config :=
  match Toml.get? name entries with
  | none => some c
  | some t => read c t

/-- The settings that a text describes. -/
def ofText (text : String) : Except ConfigError Config :=
  let config := do
    let entries ← TomlReader.read text
    let c ← withSection entries "build" withBuild default
    withSection entries "macro" withMacros c
  match config with
  | some c => .ok c
  | none => .error .malformed

def ofFile : Option String → Except ConfigError Config
  | some text => ofText text
  | none => .error .missing

end Config

end HaxeMacro
