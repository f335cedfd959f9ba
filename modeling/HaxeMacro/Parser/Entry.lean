import HaxeMacro.Parser.Grammar
import HaxeMacro.Text.Character

/-! # Reading whole texts

A text is read as one expression, one metadata entry or one type. Blanks and one semicolon may
follow it.
-/

namespace HaxeMacro

open Grammar

/-- The grammar a text is read by. -/
inductive Entry where
  | expr | metadata | type
  deriving DecidableEq, Repr

def Entry.noun : Entry → String
  | expr => "expression"
  | metadata => "metadata"
  | type => "type"

inductive ParseError where
  /-- The grammar does not go on at `pos`, where `found` stands. -/
  | unexpected (entry : Entry) (found : String) (pos : Position)
  /-- Something is left after what the grammar reads. -/
  | trailing (entry : Entry) (rest : String) (pos : Position)
  | empty (entry : Entry) (pos : Position)
  deriving DecidableEq, Repr

namespace ParseError

def pos : ParseError → Position
  | unexpected _ _ pos | trailing _ _ pos | empty _ pos => pos

def message : ParseError → String
  | unexpected entry found _ => "Unexpected '" ++ found ++ "' while parsing " ++ entry.noun
  | trailing entry rest _ => "Unexpected '" ++ rest ++ "' after " ++ entry.noun
  | empty entry _ => "Empty " ++ entry.noun

end ParseError

namespace Entry

def snippet (s : List Char) : String :=
  if s.isEmpty then "<eof>" else String.ofList (s.take 16)

/-- What is left after blanks, one semicolon, and blanks. -/
def skipTrailing (s : List Char) : List Char :=
  match Token.skipBlanks s with
  | ';' :: rest => Token.skipBlanks rest
  | rest => rest

/-- Reads the whole of `s`, which stands at `pos`, with the parser of `entry`. -/
def readAll {α : Type} (entry : Entry) (parser : Source → Parser α) (s : List Char)
    (pos : Position) : Except ParseError α :=
  let src := Source.of s pos
  if Text.allBlank s then .error (.empty entry pos)
  else
    match parser src s with
    | .done a rest =>
      match skipTrailing rest with
      | [] => .ok a
      | rest => .error (.trailing entry (snippet rest) (src.span rest rest))
    | .refused place => .error (.unexpected entry (snippet place) (src.span place place))
    | .exhausted => .error (.unexpected entry (snippet []) (src.span [] []))

theorem readAll_of_allBlank {α : Type} {entry : Entry} {parser : Source → Parser α}
    {s : List Char} {pos : Position} (h : Text.allBlank s = true) :
    readAll entry parser s pos = .error (.empty entry pos) := by
  simp only [readAll, h, if_true]

theorem readAll_of_done {α : Type} {entry : Entry} {parser : Source → Parser α} {s : List Char}
    {pos : Position} {a : α} (hblank : Text.allBlank s = false)
    (h : parser (Source.of s pos) s = .done a []) : readAll entry parser s pos = .ok a := by
  have hend : skipTrailing [] = [] := rfl
  simp only [readAll, hblank, Bool.false_eq_true, if_false, h, hend]

theorem done_of_readAll {α : Type} {entry : Entry} {parser : Source → Parser α} {s : List Char}
    {pos : Position} {a : α} (h : readAll entry parser s pos = .ok a) :
    ∃ rest, parser (Source.of s pos) s = .done a rest := by
  unfold readAll at h
  simp only at h
  split at h
  · cases h
  · split at h
    · rename_i a' rest hread
      split at h
      · cases h
        exact ⟨rest, hread⟩
      · cases h
    · cases h
    · cases h

end Entry

/-- The expression written as `text`, which stands at `pos`. -/
def Expr.parse (text : String) (pos : Position) : Except ParseError Expr :=
  Entry.readAll .expr expression text.toList pos

def Metadata.parse (text : String) (pos : Position) : Except ParseError Metadata :=
  Entry.readAll .metadata metadataEntry text.toList pos

def ComplexType.parse (text : String) (pos : Position) : Except ParseError ComplexType :=
  Entry.readAll .type complexType text.toList pos

inductive Fragment where
  | expr (e : Expr)
  | metadata (entry : Metadata)
  | type (t : ComplexType)

def Fragment.parse (entry : Entry) (text : String) (pos : Position) : Except ParseError Fragment :=
  match entry with
  | .expr => (Expr.parse text pos).map .expr
  | .metadata => (Metadata.parse text pos).map .metadata
  | .type => (ComplexType.parse text pos).map .type

end HaxeMacro
