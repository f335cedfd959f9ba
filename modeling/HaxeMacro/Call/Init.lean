import HaxeMacro.Diagnostic.Error
import HaxeMacro.Program.Reference

/-! # Initial macro calls

Calls that are given on the command line, such as `define("x")` or `my.Setup.run(1)`. The classes of
the macro library may be left out or written without their package.
-/

namespace HaxeMacro

/-- The names of `a.b.c`, which are identifiers and nothing else. -/
def Expr.dotted? : Expr → Option (List String)
  | ⟨.const (.ident name), _⟩ => some [name]
  | ⟨.field inner name, _⟩ => inner.dotted?.map (· ++ [name])
  | _ => none

namespace Reference

def library (name : String) : Path := ⟨["haxe", "macro"], name⟩

def libraryClasses : List String := ["Compiler", "Context", "CompilationServer"]

/-- The macro that the names of an initial call mean. -/
def ofInitCall? : List String → Option Reference
  | [] => none
  | [method] => some ⟨library "Compiler", method⟩
  | [name, method] =>
    if name = "server" then some ⟨library "CompilationServer", method⟩
    else if name ∈ libraryClasses then some ⟨library name, method⟩
    else some ⟨⟨[], name⟩, method⟩
  | names =>
    let path := names.dropLast
    some ⟨⟨path.dropLast, path.getLast?.getD ""⟩, names.getLast?.getD ""⟩

end Reference

def Expr.initCall (e : Expr) : Except MacroError (Reference × List Expr) :=
  match e.kind with
  | .call callee args =>
    match callee.dotted?.bind Reference.ofInitCall? with
    | some reference => .ok (reference, args)
    | none => .error (.resolution "Invalid macro call" e.pos)
  | _ => .error (.resolution "Invalid macro call" e.pos)

end HaxeMacro
