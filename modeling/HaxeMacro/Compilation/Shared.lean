import HaxeMacro.Compilation.World
import HaxeMacro.Config.Cache
import HaxeMacro.Dependency.Graph
import HaxeMacro.Diagnostic.Message
import HaxeMacro.Value.Basic

/-! # What a program and its macros share

Messages, registries, dependencies and published modules. The context of the program and the context
of its macros see and change the same state.
-/

namespace HaxeMacro

inductive HookKind where
  | afterInit | afterTyping | onGenerate | afterGenerate
  deriving DecidableEq, Repr, Inhabited

/-- The callbacks of macros, in the order of their registration. -/
structure Hooks where
  afterInit : List Value
  afterTyping : List Value
  onGenerate : List Value
  afterGenerate : List Value

namespace Hooks

def empty : Hooks := ⟨[], [], [], []⟩

def get (h : Hooks) : HookKind → List Value
  | .afterInit => h.afterInit
  | .afterTyping => h.afterTyping
  | .onGenerate => h.onGenerate
  | .afterGenerate => h.afterGenerate

def add (h : Hooks) (kind : HookKind) (callback : Value) : Hooks :=
  match kind with
  | .afterInit => { h with afterInit := h.afterInit ++ [callback] }
  | .afterTyping => { h with afterTyping := h.afterTyping ++ [callback] }
  | .onGenerate => { h with onGenerate := h.onGenerate ++ [callback] }
  | .afterGenerate => { h with afterGenerate := h.afterGenerate ++ [callback] }

end Hooks

structure MetadataDoc where
  doc : String
  targets : List String
  deriving DecidableEq, Repr

structure Shared where
  reporter : Reporter
  metadata : Entries String MetadataDoc
  userDefines : Entries String String
  graph : DependencyGraph
  pending : List PendingEdge
  hooks : Hooks
  cache : CacheConfig
  modules : Entries Path ModuleId
  /-- Whether modules of macros are just being handed over. -/
  flushing : Bool

namespace Shared

def empty : Shared where
  reporter := .empty
  metadata := []
  userDefines := []
  graph := .empty
  pending := []
  hooks := .empty
  cache := .default
  modules := []
  flushing := false

def record (s : Shared) (source target : Path) (reason : DependencyReason) : Shared :=
  { s with pending := PendingEdge.record s.pending source target reason }

/-- The edges that waited become part of the graph. -/
def commit (s : Shared) : Shared :=
  { s with pending := [], graph := DependencyGraph.commit s.pending s.graph }

/-- Forgets a module: its publication, its waiting edges and those that leave it. -/
def forget (s : Shared) (module : Path) : Shared :=
  { s with
    modules := s.modules.filter (·.1 != module)
    pending := s.pending.filter (·.source != module)
    graph := s.graph.invalidate module }

end Shared

end HaxeMacro
