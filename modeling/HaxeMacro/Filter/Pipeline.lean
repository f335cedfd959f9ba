import HaxeMacro.Filter.CaptureBox
import HaxeMacro.Filter.LocalStatic
import HaxeMacro.Filter.Shape

/-! # The pipeline of filters

Filters on bodies run once for a class, filters on whole classes whenever the class is flushed.
-/

namespace HaxeMacro

inductive BodyFilter where
  | abstractCast | localStatic | throwing | captureBox
  deriving DecidableEq, Repr

inductive TypeFilter where
  | stripGenericBase | exceptionConstructor | fieldInit | cacheDependencies | recordSnapshot
  | nativePath
  deriving DecidableEq, Repr

def BodyFilter.name : BodyFilter → String
  | abstractCast => "abstract-cast"
  | localStatic => "local-static"
  | throwing => "throw"
  | captureBox => "capture-box"

def BodyFilter.run : BodyFilter → ClassDef → Filtered
  | abstractCast => Filter.abstractCast
  | localStatic => Filter.localStatic
  | throwing => Filter.throwing
  | captureBox => Filter.captureBox

def TypeFilter.name : TypeFilter → String
  | stripGenericBase => "strip-generic-base"
  | exceptionConstructor => "exception-constructor"
  | fieldInit => "field-init"
  | cacheDependencies => "cache-dependencies"
  | recordSnapshot => "record-snapshot"
  | nativePath => "native-path"

def TypeFilter.run (cx : FilterContext) : TypeFilter → ClassDef → Filtered
  | stripGenericBase => Filter.stripGenericBase
  | exceptionConstructor => Filter.addExceptionConstructor
  | fieldInit => Filter.fieldInit
  | cacheDependencies => Filter.cacheDependencies
  | recordSnapshot => Filter.recordSnapshot cx
  | nativePath => Filter.nativePath

/-- How many changes each filter made; filters without changes are left out. -/
abbrev FilterStats := Entries String Nat

namespace FilterStats

def add (stats : FilterStats) (name : String) (count : Nat) : FilterStats :=
  if count = 0 then stats else Entries.set stats name ((Entries.get? stats name).getD 0 + count)

def modified (stats : FilterStats) : Bool := !stats.isEmpty

end FilterStats

/-- Filters in the order in which they run. -/
structure FilterPipeline where
  bodies : List BodyFilter
  types : List TypeFilter

namespace FilterPipeline

def default : FilterPipeline where
  bodies := [.abstractCast, .localStatic, .throwing, .captureBox]
  types := [.stripGenericBase, .exceptionConstructor, .fieldInit, .cacheDependencies,
    .recordSnapshot, .nativePath]

def names (p : FilterPipeline) : List String := p.bodies.map (·.name) ++ p.types.map (·.name)

/-- The class that a run leaves, and what the filters did. -/
abbrev Run := ClassDef × Except FilterError FilterStats

/-- Runs filters one after the other, up to the first that fails. -/
def runAll {φ : Type} (name : φ → String) (run : φ → ClassDef → Filtered) :
    List φ → ClassDef → FilterStats → Run
  | [], c, stats => (c, .ok stats)
  | f :: fs, c, stats =>
    match run f c with
    | (c, .error e) => (c, .error e)
    | (c, .ok count) => runAll name run fs c (stats.add (name f) count)

def run (p : FilterPipeline) (cx : FilterContext) (c : ClassDef) : Run :=
  if c.filtered then runAll TypeFilter.name (TypeFilter.run cx) p.types c []
  else
    match runAll BodyFilter.name BodyFilter.run p.bodies c [] with
    | (c, .error e) => (c, .error e)
    | (c, .ok stats) =>
      runAll TypeFilter.name (TypeFilter.run cx) p.types { c with filtered := true } stats

end FilterPipeline

end HaxeMacro
