import HaxeMacro.Codec.Decode
import HaxeMacro.Codec.Encode
import HaxeMacro.Fragment.Equality
import HaxeMacro.Fragment.Printer
import HaxeMacro.Parser.Entry

/-! # Fragments of any kind

What all kinds of fragments have in common: a text, a value, and a way back from the value.
-/

namespace HaxeMacro

namespace Fragment

def text : Fragment → String
  | expr e => e.text
  | metadata m => m.text
  | type t => t.text

def value : Fragment → Value
  | expr e => Encode.expr e
  | metadata m => Encode.metadata m
  | type t => Encode.complexType t

/-- Whether reading the value gives the fragment back. -/
def roundTrips : Fragment → Bool
  | expr e => (Encode.expr e).decodeExpr.result?.any (· == e)
  | metadata m => (Encode.metadata m).decodeMetadata.result?.any (· == m)
  | type t => (Encode.complexType t).decodeComplexType.result?.any (· == t)

end Fragment

end HaxeMacro
