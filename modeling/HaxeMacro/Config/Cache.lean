import HaxeMacro.Config.Json
import HaxeMacro.Value.Json

/-! # Settings of the binary cache

Whether and where compiled modules are kept. Macros read and change them.
-/

namespace HaxeMacro

structure CacheConfig where
  enabled : Bool
  path : Option String
  compress : Bool
  deriving DecidableEq, Repr

namespace CacheConfig

def default : CacheConfig := ⟨false, none, false⟩

def json (c : CacheConfig) : JsonTree :=
  .object [("enabled", .flag c.enabled), ("path", .option .text c.path),
    ("compress", .flag c.compress)]

def text (c : CacheConfig) : String := c.json.compact

def bool? : Json → Option Bool
  | .bool b => some b
  | _ => none

/-- A path; null stands for none. -/
def path? : Json → Option (Option String)
  | .null => some none
  | .string (some s) => some (some s)
  | _ => none

def entry? (key : String) (entries : List (Option String × Json)) :
    Option (Option Json) :=
  match entries.filter (·.1 == some key) with
  | [] => some none
  | [(_, v)] => some (some v)
  | _ => none

/-- The settings by their names, or in their order. Unknown names are passed over as long as they
are texts, and only the path may be left out. -/
def ofJson? : Json → Option CacheConfig
  | .object entries => do
    guard (entries.all (·.1.isSome))
    let enabled ← bool? (← (← entry? "enabled" entries))
    let path ← path? ((← entry? "path" entries).getD .null)
    let compress ← bool? (← (← entry? "compress" entries))
    return ⟨enabled, path, compress⟩
  | .array [enabled, path, compress] => do
    return ⟨← bool? enabled, ← path? path, ← bool? compress⟩
  | _ => none

def ofText? (text : String) : Option CacheConfig := (Json.read text).bind ofJson?

end CacheConfig

end HaxeMacro
