import HaxeMacro.Compilation.Request

/-! # Scripts

A native method can be written as a script: a list of instructions that ask the compiler and give a
value at the end. What was asked and answered is kept in a trace.
-/

namespace HaxeMacro

/-- A value with holes, which are filled from the arguments of the call. -/
abbrev Template := List Value → Value

/-- What a script asks. A position that is left out is the position of the call. -/
inductive Query where
  | position
  | parseExpr (text : String) (pos : Option Position)
  | parseMetadata (text : String) (pos : Option Position)
  | parseType (text : String) (pos : Option Position)
  | resolveType (text : String) (pos : Option Position)
  | defineType (definition : Template)
  | defineModule (path : Path) (definitions : List Template)
  | includeModule (path : Path)
  | registerMetadata (name doc : String) (targets : List String)
  | registerDefine (name doc : String)
  | define (name : String) (value : Option String)
  | defined (name : String)
  | addHook (kind : HookKind) (callback : Template)
  | cacheConfig
  | setCacheConfig (config : CacheConfig)
  | buildFields
  | localClass
  | localModule
  | localVars
  | imports
  | usings
  | expected
  | fail (text : String) (pos : Option Position)
  | warn (text : String) (pos : Option Position)
  | inform (text : String) (pos : Option Position)
  | invokeMacro
  | enterModule (path : Path)

def Query.name : Query → String
  | position => "pos"
  | parseExpr .. => "parse_expr"
  | parseMetadata .. => "parse_metadata"
  | parseType .. => "parse_type"
  | resolveType .. => "resolve_type"
  | defineType .. => "define_type"
  | defineModule .. => "define_module"
  | includeModule _ => "include"
  | registerMetadata .. => "register_metadata"
  | registerDefine .. => "register_define"
  | define .. => "define"
  | defined _ => "defined"
  | addHook .. => "hook"
  | cacheConfig => "cache"
  | setCacheConfig _ => "set_cache"
  | buildFields => "build_fields"
  | localClass => "local_class"
  | localModule => "local_module"
  | localVars => "local_vars"
  | imports => "imports"
  | usings => "usings"
  | expected => "expected"
  | fail .. => "error"
  | warn .. => "warning"
  | inform .. => "info"
  | invokeMacro => "invoke_macro"
  | enterModule _ => "module"

inductive Instruction where
  | give (value : Template)
  | finish
  | throw (payload : Template)
  | abort (message : String)
  | giveExpr (text : String) (pos : Option Position)
  | giveType (text : String) (pos : Option Position)
  | giveFields
  | traceArgs
  /-- Asks; an error is thrown. -/
  | ask (query : Query)
  /-- Asks; an error is passed over. -/
  | attempt (query : Query)

abbrev Script := List Instruction

/-! ## Traces -/

inductive Answer where
  | nothing
  | call (pos : Position) (macroName : String)
  | expr (e : Expr)
  | metadata (m : Metadata)
  | complexType (t : ComplexType)
  | type (t : Option Ty)
  | module (m : ModuleDef)
  | definition (value : Option String)
  | cache (config : CacheConfig)
  | fields (fs : List Field)
  | path (p : Option Path)
  | paths (ps : List Path)
  | locals (vars : Entries String Ty)
  | result (r : CallResult)
  | values (vs : List Value)

structure TraceEntry where
  name : String
  answer : Except MacroError Answer

end HaxeMacro
