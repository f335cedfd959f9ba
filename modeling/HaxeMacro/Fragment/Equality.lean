import HaxeMacro.Fragment.Basic

/-! # Equality of fragments

Fragments are equal if all their parts are, positions included.
-/

namespace HaxeMacro

mutual

def Expr.same : Expr → Expr → Bool
  | ⟨k, p⟩, ⟨l, q⟩ => k.same l && p == q

def ExprKind.same : ExprKind → ExprKind → Bool
  | .const c, .const d => c == d
  | .index a b, .index c d | .forIn a b, .forIn c d => a.same c && b.same d
  | .binary op a b, .binary op' c d => op == op' && a.same c && b.same d
  | .field e n, .field f m => e.same f && n == m
  | .paren e, .paren f | .untyped e, .untyped f | .throw e, .throw f => e.same f
  | .object fs, .object gs => sameObjectFields fs gs
  | .array es, .array fs | .block es, .block fs => sameExprs es fs
  | .call e es, .call f fs => e.same f && sameExprs es fs
  | .new p es, .new q fs => p.same q && sameExprs es fs
  | .unary op after e, .unary op' after' f => op == op' && after == after' && e.same f
  | .vars vs, .vars ws => sameVars vs ws
  | .function k f, .function l g => k == l && f.same g
  | .cond a b e, .cond c d f => a.same c && b.same d && sameOption e f
  | .loop a b first, .loop c d first' => a.same c && b.same d && first == first'
  | .ret e, .ret f => sameOption e f
  | .brk, .brk | .cont, .cont => true
  | .cast e t, .cast f u => e.same f && sameOptionType t u
  | .ternary a b e, .ternary c d f => a.same c && b.same d && e.same f
  | .checkType e t, .checkType f u => e.same f && t.same u
  | .annotated m e, .annotated n f => m.same n && e.same f
  | _, _ => false

def sameExprs : List Expr → List Expr → Bool
  | [], [] => true
  | e :: es, f :: fs => e.same f && sameExprs es fs
  | _, _ => false

def sameOption : Option Expr → Option Expr → Bool
  | none, none => true
  | some e, some f => e.same f
  | _, _ => false

def sameObjectFields : List ObjectField → List ObjectField → Bool
  | [], [] => true
  | ⟨n, e, q⟩ :: fs, ⟨m, f, r⟩ :: gs => n == m && e.same f && q == r && sameObjectFields fs gs
  | _, _ => false

def sameVars : List Var → List Var → Bool
  | [], [] => true
  | ⟨n, t, e, final, static, ms⟩ :: vs, ⟨n', t', e', final', static', ms'⟩ :: ws =>
    n == n' && sameOptionType t t' && sameOption e e' && final == final' && static == static' &&
      sameMetadata ms ms' && sameVars vs ws
  | _, _ => false

def sameParams : List Param → List Param → Bool
  | [], [] => true
  | ⟨n, o, t, e, ms⟩ :: ps, ⟨n', o', t', e', ms'⟩ :: qs =>
    n == n' && o == o' && sameOptionType t t' && sameOption e e' && sameMetadata ms ms' &&
      sameParams ps qs
  | _, _ => false

def FunctionDef.same : FunctionDef → FunctionDef → Bool
  | ⟨ps, ret, body, ts⟩, ⟨qs, ret', body', us⟩ =>
    sameParams ps qs && sameOptionType ret ret' && sameOption body body' && sameTypeParams ts us

def sameTypeParams : List TypeParamDecl → List TypeParamDecl → Bool
  | [], [] => true
  | ⟨n, cs, ps, ms⟩ :: ts, ⟨n', cs', ps', ms'⟩ :: us =>
    n == n' && sameTypes cs cs' && sameTypeParams ps ps' && sameMetadata ms ms' &&
      sameTypeParams ts us
  | _, _ => false

def Metadata.same : Metadata → Metadata → Bool
  | ⟨n, es, p⟩, ⟨m, fs, q⟩ => n == m && sameExprs es fs && p == q

def sameMetadata : List Metadata → List Metadata → Bool
  | [], [] => true
  | m :: ms, n :: ns => m.same n && sameMetadata ms ns
  | _, _ => false

def TypePath.same : TypePath → TypePath → Bool
  | ⟨p, n, as, s⟩, ⟨q, m, bs, r⟩ => p == q && n == m && sameTypeArgs as bs && s == r

def sameTypeArgs : List TypeArg → List TypeArg → Bool
  | [], [] => true
  | .type t :: as, .type u :: bs => t.same u && sameTypeArgs as bs
  | .expr e :: as, .expr f :: bs => e.same f && sameTypeArgs as bs
  | _, _ => false

def ComplexType.same : ComplexType → ComplexType → Bool
  | .path p, .path q => p.same q
  | .function ts t, .function us u => sameTypes ts us && t.same u
  | .anonymous fs, .anonymous gs => sameFields fs gs
  | .paren t, .paren u | .optional t, .optional u => t.same u
  | .named n t, .named m u => n == m && t.same u
  | _, _ => false

def sameTypes : List ComplexType → List ComplexType → Bool
  | [], [] => true
  | t :: ts, u :: us => t.same u && sameTypes ts us
  | _, _ => false

def sameOptionType : Option ComplexType → Option ComplexType → Bool
  | none, none => true
  | some t, some u => t.same u
  | _, _ => false

def FieldKind.same : FieldKind → FieldKind → Bool
  | .var t e, .var u f => sameOptionType t u && sameOption e f
  | .method f, .method g => f.same g
  | .property g s t e, .property g' s' t' e' =>
    g == g' && s == s' && sameOptionType t t' && sameOption e e'
  | _, _ => false

def Field.same : Field → Field → Bool
  | ⟨n, doc, as, k, p, ms⟩, ⟨n', doc', as', k', p', ms'⟩ =>
    n == n' && doc == doc' && as == as' && k.same k' && p == p' && sameMetadata ms ms'

def sameFields : List Field → List Field → Bool
  | [], [] => true
  | f :: fs, g :: gs => f.same g && sameFields fs gs
  | _, _ => false

end

instance : BEq Expr := ⟨Expr.same⟩
instance : BEq Metadata := ⟨Metadata.same⟩
instance : BEq ComplexType := ⟨ComplexType.same⟩

end HaxeMacro
