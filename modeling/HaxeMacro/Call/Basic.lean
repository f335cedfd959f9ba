import HaxeMacro.Program.Ty

/-! # Macro calls

The modes, the arguments and the results of macro calls. The last parameter of a macro may collect
all further arguments into an array of expressions.
-/

namespace HaxeMacro

/-- Where a macro call stands, which decides what it has to return. -/
inductive CallMode where
  | expr | build | type | display
  deriving DecidableEq, Repr, Inhabited

def CallMode.text : CallMode → String
  | expr => "expression"
  | build => "build"
  | type => "type"
  | display => "display"

/-- What a macro call stands for. -/
inductive CallResult where
  | expr (e : Expr)
  | fields (fs : List Field)
  | keepFields
  | type (t : Ty)
  -- Nothing was run: a query about the program, or macro code that called a macro.
  | displayOnly
  | macroInMacro
  | nothing

/-! ## Arguments -/

/-- The arguments of a call: those that stand for themselves, and those that are collected. -/
structure CallArgs where
  fixed : List Expr
  /-- The collected arguments; `fixed` ends with an empty array in their place. -/
  rest : Option (List Expr)

namespace CallArgs

def collects (params : List TyParam) : Bool :=
  match params.getLast? with
  | some p => p.type == Ty.array Ty.macroExpr
  | none => false

/-- Splits the arguments of a call at `pos`. Arguments that are too few to reach the last parameter
are left as they are. -/
def split (params : List TyParam) (args : List Expr) (pos : Position) : CallArgs :=
  let count := params.length - 1
  if collects params && count.ble args.length then
    ⟨args.take count ++ [⟨.array [], pos⟩], some (args.drop count)⟩
  else ⟨args, none⟩

end CallArgs

/-- A parameter of type `haxe.Rest<T>` takes an array of `T`. -/
def TyParam.restAsArray (p : TyParam) : TyParam :=
  match p.type.restItem? with
  | some item => { p with type := Ty.array item }
  | none => p

def restAsArray : List TyParam → List TyParam
  | [] => []
  | [p] => [p.restAsArray]
  | p :: ps => p :: restAsArray ps

end HaxeMacro
