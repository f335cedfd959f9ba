import HaxeMacro.Proofs.Parser.Expressions
import HaxeMacro.Proofs.Printing.Lists
import HaxeMacro.Text.Character
import Mathlib.Data.Bool.AllAny

/-! # Reading printed types

A type as it is read from a text is read again from what the printer makes of it, if no name, no
type argument and no arrow follows.
-/

namespace HaxeMacro

open Parser Token Grammar

/-! ## A text that stands nowhere -/

namespace Grammar

/-- Read from here, a fragment has no positions. -/
def Source.nowhere : Source := ⟨Position.noFile, 0, 0⟩

theorem Source.span_nowhere (start stop : List Char) : Source.nowhere.span start stop = .null := by
  simp only [Source.span, Source.offset, Source.nowhere, Nat.zero_sub]
  rfl

theorem moves_nowhere (src : Source) : Moves (fun _ => .null) src .nowhere :=
  ⟨fun start stop => Source.span_nowhere start stop, fun _ _ => rfl⟩

end Grammar

/-! ## What may follow -/

/-- Neither the last name of a type nor its arguments go on. -/
structure AtomEnds (s : List Char) : Prop where
  breaks : Breaks s
  noPoint : ∀ c ∈ s.head?, c ≠ '.'
  noArgs : ∀ c ∈ (skipBlanks s).head?, c ≠ '<'

/-- A type does not go on. -/
structure TypeEnds (s : List Char) : Prop extends AtomEnds s where
  noArrow : Refuses (symbol "->") s

theorem atomEnds_mark {c : Char} (s : List Char)
    (hc : c.toNat < 128 ∧ Text.continuesName c = false ∧ c ≠ '.') (hblank : startsBlank c = false)
    (hargs : c ≠ '<') : AtomEnds (c :: s) := by
  refine ⟨breaks_mark s hc, ?_, ?_⟩
  · intro d hd
    cases hd
    exact hc.2.2
  · intro d hd
    rw [skipBlanks_cons s hblank] at hd
    cases hd
    exact hargs

theorem typeEnds_of_mem {c : Char} (s : List Char) (hc : c ∈ [')', ']', ',', ';', '>', '\x7d']) :
    TypeEnds (c :: s) := by
  have hall : ∀ c ∈ [')', ']', ',', ';', '>', '\x7d'],
      (c.toNat < 128 ∧ Text.continuesName c = false ∧ c ≠ '.') ∧ startsBlank c = false ∧
        c ≠ '<' ∧ c ≠ '-' := List.all_iff_forall_prop.mp (by decide)
  obtain ⟨hmark, hblank, hargs, harrow⟩ := hall c hc
  refine ⟨atomEnds_mark s hmark hblank hargs, ?_⟩
  have hblanks : blanks (c :: s) = .done () (c :: s) := by rw [blanks, skipBlanks_cons s hblank]
  refine Refuses.next hblanks (refuses_text (c := '-') (w := ['>']) rfl ?_)
  intro d hd
  cases hd
  exact harrow

theorem typeEnds_nil : TypeEnds [] := by
  refine ⟨⟨breaks_nil, ?_, ?_⟩, ⟨[], rfl⟩⟩
  · intro c hc
    cases hc
  · intro c hc
    cases hc

theorem typeEnds_space {s : List Char} (hs : skipBlanks s = s)
    (hargs : ∀ c ∈ s.head?, c ≠ '<') (harrow : Refuses (text "->") s) : TypeEnds (' ' :: s) := by
  refine ⟨⟨breaks_mark s (by decide), ?_, ?_⟩, ?_⟩
  · intro c hc
    cases hc
    decide
  · rw [skipBlanks_space, hs]
    exact hargs
  · have hblanks : blanks (' ' :: s) = .done () s := by rw [blanks, skipBlanks_space, hs]
    exact Refuses.next hblanks harrow

/-! ## Names with points -/

def dotted : List String → List Char
  | [] => []
  | part :: parts => chars part ++ parts.flatMap fun p => '.' :: chars p

theorem dotted_append (pack : List String) (name : String) (sub : List String) :
    dotted (pack ++ name :: sub) =
      pack.flatMap (fun p => chars p ++ ['.']) ++ dotted (name :: sub) := by
  induction pack with
  | nil => rfl
  | cons part pack ih =>
    rw [List.flatMap_cons, List.append_assoc, ← ih]
    cases pack with
    | nil => simp [dotted]
    | cons p ps => simp [dotted]

theorem breaks_point_name {name : String} (h : IsName name) (s : List Char) :
    Breaks ('.' :: (chars name ++ s)) := by
  obtain ⟨c, cs, hname, hc, -⟩ := h
  refine breaks_point ?_
  intro d hd
  rw [chars, hname] at hd
  cases hd
  exact Text.not_isDigit_of_startsName hc

theorem many_points {s : List Char} (hs : Breaks s) (hpoint : ∀ c ∈ s.head?, c ≠ '.')
    (parts : List String) (hparts : ∀ part ∈ parts, IsName part) :
    many (do let _ ← text "."; anyIdentifier) (parts.flatMap (fun p => '.' :: chars p) ++ s) =
        .done parts s ∧
      Breaks (parts.flatMap (fun p => '.' :: chars p) ++ s) := by
  have heats : Eats 1 (do let _ ← text "."; anyIdentifier) := Keeps.eats fun n =>
    (keeps_text n (by decide)).andThen fun _ => (eats_anyIdentifier.keeps n).weaken
  induction parts with
  | nil =>
    refine ⟨Refuses.many_eq ?_, hs⟩
    exact Refuses.bind (refuses_text (c := '.') (w := []) rfl hpoint)
  | cons part parts ih =>
    obtain ⟨hmany, hbreaks⟩ := ih fun p hp => hparts p (List.mem_cons_of_mem _ hp)
    have hname := hparts part List.mem_cons_self
    rw [List.flatMap_cons, List.append_assoc, List.cons_append]
    refine ⟨many_of_done heats ?_ hmany, breaks_point_name hname _⟩
    have hpoint : text "." ('.' :: (chars part ++ (parts.flatMap (fun p => '.' :: chars p) ++ s))) =
        .done () (chars part ++ (parts.flatMap (fun p => '.' :: chars p) ++ s)) :=
      text_append "." _
    rw [bind_of_done hpoint]
    exact anyIdentifier_append hname hbreaks

theorem reads_anyIdentifier {name : String} {s : List Char} (h : IsName name) (hs : Breaks s) :
    Reads anyIdentifier (chars name) name s := by
  intro t ht
  have hblanks : blanks t = .done () (chars name ++ s) := by rw [blanks, ht]
  exact (bind_of_done hblanks).trans (name_append h hs)

theorem reads_dotted {s : List Char} (hs : Breaks s) (hpoint : ∀ c ∈ s.head?, c ≠ '.')
    {parts : List String} (hne : parts ≠ []) (hparts : ∀ part ∈ parts, IsName part) :
    Reads (sepBy1 anyIdentifier (text ".")) (dotted parts) parts s := by
  cases parts with
  | nil => exact absurd rfl hne
  | cons part parts =>
    obtain ⟨hmany, hbreaks⟩ :=
      many_points hs hpoint parts fun p hp => hparts p (List.mem_cons_of_mem _ hp)
    intro t ht
    rw [dotted, List.append_assoc] at ht
    have hfirst := reads_anyIdentifier (hparts part List.mem_cons_self) hbreaks t ht
    rw [sepBy1, bind_of_done hfirst, bind_of_done hmany]
    rfl

/-! ## Types as they are read -/

/-- A field as an anonymous structure declares it. -/
structure Field.IsAnonymous (f : Field) : Prop where
  name : IsName f.name
  doc : f.doc = none
  access : f.access = []
  kind : ∃ t, f.kind = .var (some t) none
  annotations : f.annotations = [] ∨ f.annotations = [⟨":optional", [], f.pos⟩]

/-- A function type stands between parentheses where an argument or result type is expected. -/
def ComplexType.IsAtom : ComplexType → Prop
  | .function _ _ => False
  | _ => True

/-- The types that are read from texts. -/
inductive ComplexType.Written : ComplexType → Prop where
  | path {pack : List String} {name : String} {args : List ComplexType} {sub : Option String}
    (hparts : ∀ part ∈ pack ++ name :: sub.toList, IsName part)
    (hindex : typeIndex (pack ++ name :: sub.toList) = pack.length)
    (hargs : ∀ t ∈ args, t.Written) :
    Written (.path ⟨pack, name, args.map .type, sub⟩)
  | function {args : List ComplexType} {ret : ComplexType} (hne : args ≠ [])
    (hargs : ∀ t ∈ args, t.Written) (hatoms : ∀ t ∈ args, t.IsAtom) (hret : ret.Written)
    (hatom : ret.IsAtom) : Written (.function args ret)
  | anonymous {fields : List Field} (hshape : ∀ f ∈ fields, f.IsAnonymous)
    (htypes : ∀ f ∈ fields, ∀ t, f.kind = .var (some t) none → t.Written) :
    Written (.anonymous fields)
  | paren {t : ComplexType} (ht : t.Written) : Written (.paren t)
  | optional {t : ComplexType} (ht : t.Written) (hatom : t.IsAtom) : Written (.optional t)

def TypePath.Written (p : TypePath) : Prop := (ComplexType.path p).Written

/-! ## How the printer writes them -/

theorem printTypeArgs_types (ts : List ComplexType) :
    printTypeArgs (ts.map .type) = ts.map (·.print) := by
  induction ts with
  | nil => rfl
  | cons t ts ih =>
    rw [List.map_cons, printTypeArgs, TypeArg.print, ih]
    rfl

theorem print_path (pack : List String) (name : String) (args : List ComplexType)
    (sub : Option String) :
    TypePath.print ⟨pack, name, args.map .type, sub⟩ = dotted (pack ++ name :: sub.toList) ++
      if args = [] then [] else '<' :: joinWith ", " (args.map (·.print)) ++ ['>'] := by
  rw [dotted_append]
  cases args with
  | nil => cases sub <;> simp [TypePath.print, dotted]
  | cons t ts =>
    rw [if_neg (List.cons_ne_nil t ts), List.map_cons]
    cases sub <;> simp [TypePath.print, TypeArg.print, printTypeArgs_types, dotted]

example : TypePath.print ⟨["ds"], "Map", [.type (.path ⟨[], "Int", [], none⟩)], none⟩ =
    "ds.Map<Int>".toList := by
  cbv

theorem printArrows_eq (args : List ComplexType) (ret : ComplexType) :
    printArrows args ++ ret.print = match args ++ [ret] with
      | [] => []
      | t :: ts => t.print ++ ts.flatMap fun t => chars " -> " ++ t.print := by
  induction args with
  | nil => simp [printArrows]
  | cons t ts ih =>
    rw [printArrows, List.append_assoc, ih]
    cases ts with
    | nil => simp
    | cons t' ts => simp

def Field.printAnonymous (f : Field) : List Char :=
  (if f.isOptional then ['?'] else []) ++ chars f.name ++ f.kind.printType

theorem printFields_eq_map (fs : List Field) : printFields fs = fs.map (·.printAnonymous) := by
  refine eq_map_of_cons rfl (fun f fs => ?_) fs
  cases f
  rfl

theorem dotted_start {parts : List String} (hne : parts ≠ [])
    (hparts : ∀ part ∈ parts, IsName part) :
    ∃ c ∈ (dotted parts).head?, Text.startsName c = true := by
  cases parts with
  | nil => exact absurd rfl hne
  | cons part parts =>
    obtain ⟨c, cs, hname, hc, -⟩ := hparts part List.mem_cons_self
    refine ⟨c, ?_, hc⟩
    rw [dotted, chars, hname]
    rfl

/-- What the text of a type starts with. -/
def startsType (c : Char) : Bool := Text.startsName c || c == '(' || c == '?' || c == '\x7b'

theorem isBlank_of_startsType {c : Char} (h : startsType c = true) : Text.isBlank c = false := by
  simp only [startsType, Text.startsName, Text.isAsciiLetter, Bool.or_eq_true, Bool.and_eq_true,
    Nat.ble_eq, beq_iff_eq, Char.reduceToNat] at h
  rcases h with ((((h | h) | rfl) | rfl) | rfl) | rfl
  · exact Text.isBlank_of_visible (by omega) (by omega)
  · exact Text.isBlank_of_visible (by omega) (by omega)
  all_goals rfl

theorem startsBlank_of_startsType {c : Char} (h : startsType c = true) :
    startsBlank c = false :=
  startsBlank_eq_false (by decide) h

namespace ComplexType

theorem Written.head {t : ComplexType} (h : t.Written) :
    ∃ c ∈ t.print.head?, startsType c = true := by
  induction h with
  | @path pack name args sub hparts =>
    obtain ⟨c, hc, hstarts⟩ := dotted_start (by simp) hparts
    refine ⟨c, ?_, by simp [startsType, hstarts]⟩
    rw [ComplexType.print, print_path, List.head?_append, hc]
    rfl
  | @function args ret hne _ _ _ _ ih =>
    cases args with
    | nil => exact absurd rfl hne
    | cons t ts =>
      obtain ⟨c, hc, hstarts⟩ := ih t List.mem_cons_self
      refine ⟨c, ?_, hstarts⟩
      rw [ComplexType.print, printArrows, List.append_assoc, List.append_assoc, List.head?_append,
        hc]
      rfl
  | anonymous => exact ⟨'\x7b', rfl, rfl⟩
  | paren => exact ⟨'(', rfl, rfl⟩
  | optional => exact ⟨'?', rfl, rfl⟩

theorem Written.start {t : ComplexType} (h : t.Written) : StartsToken t.print := by
  obtain ⟨c, hc, hstarts⟩ := h.head
  exact ⟨c, hc, startsBlank_of_startsType hstarts⟩

theorem Written.not_allBlank {t : ComplexType} (h : t.Written) :
    Text.allBlank t.print = false := by
  obtain ⟨c, hc, hstarts⟩ := h.head
  obtain ⟨s, hprint⟩ := List.head?_eq_some_iff.mp hc
  rw [hprint, Text.allBlank_cons, isBlank_of_startsType hstarts]
  rfl

end ComplexType

/-! ## Reading them back -/

theorem reads_type_of_atom {t : ComplexType} {s : List Char} (hs : TypeEnds s)
    (h : Reads (atom .nowhere) t.print t.unplaced s) :
    Reads (complexType .nowhere) t.print t.unplaced s := by
  intro t' ht
  have hmany : many (do symbol "->"; atom Source.nowhere) s = .done [] s :=
    hs.noArrow.bind.many_eq
  rw [complexType_eq, arrows, bind_of_done (h t' ht), bind_of_done hmany]
  rfl

theorem atomEnds_arrow (s : List Char) : AtomEnds (chars " -> " ++ s) := by
  refine ⟨breaks_mark _ (by decide), ?_, ?_⟩
  · intro c hc
    cases hc
    decide
  · intro c hc
    cases hc
    decide

theorem symbol_arrow (s : List Char) : symbol "->" (chars " -> " ++ s) = .done () (' ' :: s) := rfl

theorem many_arrows {s : List Char} (hs : TypeEnds s) (ts : List ComplexType)
    (hwritten : ∀ t ∈ ts, t.Written)
    (hread : ∀ t ∈ ts, ∀ s, AtomEnds s → Reads (atom .nowhere) t.print t.unplaced s) :
    many (do symbol "->"; atom .nowhere) ((ts.flatMap fun t => chars " -> " ++ t.print) ++ s) =
        .done (ts.map (·.unplaced)) s ∧
      AtomEnds ((ts.flatMap fun t => chars " -> " ++ t.print) ++ s) := by
  have heats : Eats 1 (do symbol "->"; atom .nowhere) := Keeps.eats fun n =>
    (keeps_symbol n (by decide)).andThen fun _ => ((eats_atom _).keeps n).weaken
  induction ts with
  | nil => exact ⟨hs.noArrow.bind.many_eq, hs.toAtomEnds⟩
  | cons t ts ih =>
    obtain ⟨hmany, hends⟩ := ih (fun t ht => hwritten t (List.mem_cons_of_mem _ ht))
      fun t ht => hread t (List.mem_cons_of_mem _ ht)
    have hstart := (hwritten t List.mem_cons_self).start
    rw [List.flatMap_cons, List.append_assoc, List.append_assoc]
    refine ⟨many_of_done heats ?_ hmany, atomEnds_arrow _⟩
    rw [bind_of_done (symbol_arrow _)]
    exact (hread t List.mem_cons_self _ hends).space hstart

/-- What a type reads as, alone and between arrows. -/
def ComplexType.ReadsBack (t : ComplexType) : Prop :=
  (t.IsAtom → ∀ s, AtomEnds s → Reads (atom .nowhere) t.print t.unplaced s) ∧
    ∀ s, TypeEnds s → Reads (complexType .nowhere) t.print t.unplaced s

theorem readsBack_of_atom {t : ComplexType}
    (h : ∀ s, AtomEnds s → Reads (atom .nowhere) t.print t.unplaced s) : t.ReadsBack :=
  ⟨fun _ => h, fun s hs => reads_type_of_atom hs (h s hs.toAtomEnds)⟩

theorem readsBack_function {args : List ComplexType} {ret : ComplexType} (hne : args ≠ [])
    (hargs : ∀ t ∈ args, t.Written ∧ t.IsAtom ∧ t.ReadsBack)
    (hret : ret.Written ∧ ret.IsAtom ∧ ret.ReadsBack) :
    (ComplexType.function args ret).ReadsBack := by
  refine ⟨fun hatom => hatom.elim, fun s hs t ht => ?_⟩
  cases args with
  | nil => exact absurd rfl hne
  | cons a as =>
    have hall : ∀ t ∈ as ++ [ret], t.Written ∧ t.IsAtom ∧ t.ReadsBack := by
      intro t ht
      rcases List.mem_append.mp ht with ht | ht
      · exact hargs t (List.mem_cons_of_mem _ ht)
      · rw [List.mem_singleton.mp ht]
        exact hret
    obtain ⟨hmany, hends⟩ := many_arrows hs (as ++ [ret]) (fun t ht => (hall t ht).1)
      fun t ht => (hall t ht).2.2.1 (hall t ht).2.1
    obtain ⟨-, hatom, hread, -⟩ := hargs a List.mem_cons_self
    rw [ComplexType.print, printArrows_eq] at ht
    simp only [List.cons_append, List.append_assoc] at ht
    have hfirst := hread hatom _ hends t ht
    rw [complexType_eq, arrows, bind_of_done hfirst, bind_of_done hmany]
    simp [ComplexType.unplaced, ComplexType.relocate, relocateTypes_eq_map]

theorem readsBack_optional {t : ComplexType} (ht : t.Written) (hatom : t.IsAtom)
    (hread : t.ReadsBack) : (ComplexType.optional t).ReadsBack := by
  refine readsBack_of_atom fun s hs t' ht' => ?_
  have hmark : symbol "?" t' = .done () (t.print ++ s) := reads_symbol "?" _ t' ht'
  have hinner := (hread.1 hatom s hs).append ht.start
  rw [atom_eq]
  refine or_of_done ?_
  rw [bind_of_done hmark, bind_of_done hinner]
  rfl

theorem readsBack_paren {t : ComplexType} (ht : t.Written) (hread : t.ReadsBack) :
    (ComplexType.paren t).ReadsBack := by
  refine readsBack_of_atom fun s hs t' ht' => ?_
  have ht' : skipBlanks t' = '(' :: (t.print ++ ')' :: s) := by
    rw [ht', ComplexType.print]
    simp
  have hmark : Refuses (symbol "?") t' := refuses_symbol (c := '?') (w := []) rfl ht' (by decide)
  have hopen : symbol "(" t' = .done () (t.print ++ ')' :: s) := reads_symbol "(" _ t' ht'
  have hinner := (hread.2 (')' :: s) (typeEnds_of_mem s (by decide))).append ht.start
  have hclose : symbol ")" (')' :: s) = .done () s := rfl
  rw [complexType_eq] at hinner
  rw [atom_eq]
  refine hmark.bind.or_eq.trans (or_of_done ?_)
  rw [bind_of_done hopen, bind_of_done hinner, bind_of_done hclose]
  rfl

/-! ### Anonymous structures -/

theorem relocate_isAnonymous {f : Field} {t : ComplexType} (hf : f.IsAnonymous)
    (hkind : f.kind = .var (some t) none) :
    f.relocate (fun _ => .null) = {
      name := f.name, pos := .null, doc := none, access := []
      kind := .var (some t.unplaced) none
      annotations := if f.isOptional then [⟨":optional", [], .null⟩] else [] } := by
  obtain ⟨name, doc, access, kind, pos, annotations⟩ := f
  obtain ⟨-, rfl, rfl, -, hannotations⟩ := hf
  cases hkind
  simp only at hannotations
  rcases hannotations with rfl | rfl <;> rfl

theorem reads_anonymousField {f : Field} {t : ComplexType} (hf : f.IsAnonymous)
    (hkind : f.kind = .var (some t) none) (ht : t.Written) (hread : t.ReadsBack) {s : List Char}
    (hs : TypeEnds s) :
    Reads (anonymousField .nowhere (complexType .nowhere)) f.printAnonymous
      (f.relocate fun _ => .null) s := by
  intro t' ht'
  have hprint : f.printAnonymous ++ s =
      (if f.isOptional then ['?'] else []) ++ (chars f.name ++ (' ' :: ':' :: ' ' :: (t.print ++ s))) := by
    have hcolon : chars " : " = [' ', ':', ' '] := rfl
    simp [Field.printAnonymous, hkind, FieldKind.printType, hcolon]
  rw [hprint] at ht'
  have hblanks : blanks t' = .done () (skipBlanks t') := rfl
  have hmark : present (text "?") (skipBlanks t') =
      .done f.isOptional (chars f.name ++ (' ' :: ':' :: ' ' :: (t.print ++ s))) := by
    rw [ht']
    cases f.isOptional with
    | true => rfl
    | false =>
      refine Refuses.present_eq (refuses_text (c := '?') (w := []) rfl ?_)
      obtain ⟨c, cs, hname, hc, -⟩ := hf.name
      rintro d hd rfl
      rw [chars, hname] at hd
      cases hd
      exact absurd hc (by decide)
  have hname : anyIdentifier (chars f.name ++ (' ' :: ':' :: ' ' :: (t.print ++ s))) =
      .done f.name (' ' :: ':' :: ' ' :: (t.print ++ s)) :=
    anyIdentifier_append hf.name (breaks_mark _ (by decide))
  have hcolon : symbol ":" (' ' :: ':' :: ' ' :: (t.print ++ s)) = .done () (' ' :: (t.print ++ s)) :=
    rfl
  have htype := (hread.2 s hs).space ht.start
  have hhint : typeHint (complexType .nowhere) (' ' :: ':' :: ' ' :: (t.print ++ s)) =
      .done t.unplaced s := (bind_of_done hcolon).trans htype
  rw [anonymousField, bind_of_done hblanks, bind_of_done (here_apply _), bind_of_done hmark,
    bind_of_done hname, bind_of_done hhint, bind_of_done (here_apply _), Source.span_nowhere,
    relocate_isAnonymous hf hkind]
  rfl

theorem Field.IsAnonymous.start {f : Field} (h : f.IsAnonymous) :
    StartsToken f.printAnonymous := by
  obtain ⟨c, cs, hname, hc, -⟩ := h.name
  unfold Field.printAnonymous
  split
  · exact ⟨'?', rfl, rfl⟩
  · refine ⟨c, ?_, startsBlank_of_startsName hc⟩
    rw [chars, hname]
    rfl

theorem refuses_field (type : Parser ComplexType) (s : List Char) :
    Refuses (anonymousField .nowhere type) (' ' :: ' ' :: '\x7d' :: s) := ⟨'\x7d' :: s, rfl⟩

theorem typeEnds_comma (s : List Char) : TypeEnds (',' :: s) := typeEnds_of_mem s (by decide)

theorem typeEnds_brace (s : List Char) : TypeEnds (' ' :: '\x7d' :: s) := by
  refine typeEnds_space rfl ?_ ⟨'\x7d' :: s, rfl⟩
  intro c hc
  cases hc
  decide

theorem sepBy_fields {fields : List Field} (hshape : ∀ f ∈ fields, f.IsAnonymous)
    (htypes : ∀ f ∈ fields, ∀ t, f.kind = .var (some t) none → t.Written ∧ t.ReadsBack)
    (s : List Char) :
    ∃ rest, skipBlanks rest = '\x7d' :: s ∧
      sepBy (anonymousField .nowhere (complexType .nowhere)) (symbol ",")
        (' ' :: (joinWith ", " (fields.map (·.printAnonymous)) ++ ' ' :: '\x7d' :: s)) =
        .done (fields.map (·.relocate fun _ => .null)) rest := by
  by_cases hne : fields = []
  · subst hne
    exact ⟨_, rfl, sepBy_nil (refuses_field _ s)⟩
  · have heats : Eats 1 (anonymousField .nowhere (complexType .nowhere)) := Keeps.eats_left fun n =>
      (keeps_anonymousField (moves_id _) (keeps_complexType (moves_id .nowhere))).mono
        (Nat.le_refl 1) (Nat.le_succ n)
    have hend : Refuses (do let _ ← symbol ","; anonymousField .nowhere (complexType .nowhere))
        (' ' :: '\x7d' :: s) := ⟨'\x7d' :: s, rfl⟩
    have hread : ∀ f ∈ fields, ∀ t, TypeEnds t →
        Reads (anonymousField .nowhere (complexType .nowhere)) f.printAnonymous
          (f.relocate fun _ => .null) t := by
      intro f hf t ht
      obtain ⟨type, hkind⟩ := (hshape f hf).kind
      obtain ⟨hwritten, hback⟩ := htypes f hf type hkind
      exact reads_anonymousField (hshape f hf) hkind hwritten hback ht
    have hall := reads_sepBy heats hend hne hread (fun f hf => (hshape f hf).start)
      (fun _ _ => typeEnds_brace s) (neighbours_of_forall (fun _ _ _ => typeEnds_comma _) fields)
    have hstart := startsToken_joinWith hne fun f hf => (hshape f hf).start
    exact ⟨' ' :: '\x7d' :: s, rfl, hall.space hstart⟩

theorem readsBack_anonymous {fields : List Field} (hshape : ∀ f ∈ fields, f.IsAnonymous)
    (htypes : ∀ f ∈ fields, ∀ t, f.kind = .var (some t) none → t.Written ∧ t.ReadsBack) :
    (ComplexType.anonymous fields).ReadsBack := by
  refine readsBack_of_atom fun s hs t ht => ?_
  obtain ⟨rest, hrest, hfields⟩ := sepBy_fields hshape htypes s
  have ht : skipBlanks t = '\x7b' :: (' ' ::
      (joinWith ", " (fields.map (·.printAnonymous)) ++ ' ' :: '\x7d' :: s)) := by
    have hopen : chars "\x7b " = ['\x7b', ' '] := rfl
    have hclose : chars " \x7d" = [' ', '\x7d'] := rfl
    rw [ht, ComplexType.print, printFields_eq_map, hopen, hclose]
    simp
  have hmark : Refuses (symbol "?") t := refuses_symbol (c := '?') (w := []) rfl ht (by decide)
  have hparen : Refuses (symbol "(") t := refuses_symbol (c := '(') (w := []) rfl ht (by decide)
  have hopen : symbol "\x7b" t = .done () (' ' ::
      (joinWith ", " (fields.map (·.printAnonymous)) ++ ' ' :: '\x7d' :: s)) :=
    reads_symbol "\x7b" _ t ht
  have hcomma : Refuses (symbol ",") rest :=
    refuses_symbol (c := ',') (w := []) rfl hrest (by decide)
  have hclose : symbol "\x7d" rest = .done () s := reads_symbol "\x7d" s rest hrest
  have hanonymous : anonymous .nowhere (complexType .nowhere) t =
      .done (fields.map (·.relocate fun _ => .null)) s := by
    rw [anonymous, bind_of_done hopen, bind_of_done hfields, bind_of_done hcomma.optional_eq,
      bind_of_done hclose]
    rfl
  rw [complexType_eq] at hanonymous
  rw [atom_eq]
  refine hmark.bind.or_eq.trans (hparen.bind.or_eq.trans (or_of_done ?_))
  rw [bind_of_done hanonymous]
  simp [ComplexType.unplaced, ComplexType.relocate, relocateFields_eq_map]

/-! ### Paths -/

theorem typeEnds_bracket (s : List Char) : TypeEnds ('>' :: s) := typeEnds_of_mem s (by decide)

theorem reads_typeArgs {args : List ComplexType} (hne : args ≠ [])
    (hargs : ∀ t ∈ args, t.Written ∧ t.ReadsBack) (s : List Char) :
    typeArgs (complexType .nowhere) ('<' :: (joinWith ", " (args.map (·.print)) ++ '>' :: s)) =
      .done (args.map fun t => TypeArg.type t.unplaced) s := by
  have hend : Refuses (do let _ ← symbol ","; complexType .nowhere) ('>' :: s) := ⟨'>' :: s, rfl⟩
  have hstart : ∀ t ∈ args, StartsToken t.print := fun t ht => (hargs t ht).1.start
  have hall := reads_sepBy1 (eats_complexType .nowhere) hend hne
    (fun t ht s hs => (hargs t ht).2.2 s hs) hstart (fun _ _ => typeEnds_bracket s)
    (neighbours_of_forall (fun _ _ _ => typeEnds_comma _) args)
  have hjoin := startsToken_joinWith hne hstart
  have hopen : symbol "<" ('<' :: (joinWith ", " (args.map (·.print)) ++ '>' :: s)) =
      .done () (joinWith ", " (args.map (·.print)) ++ '>' :: s) := rfl
  have hclose : symbol ">" ('>' :: s) = .done () s := rfl
  rw [typeArgs, bind_of_done hopen, bind_of_done (hall.append hjoin), bind_of_done hclose,
    List.map_map]
  rfl

theorem reads_typePath {pack : List String} {name : String} {args : List ComplexType}
    {sub : Option String} (hparts : ∀ part ∈ pack ++ name :: sub.toList, IsName part)
    (hindex : typeIndex (pack ++ name :: sub.toList) = pack.length)
    (hargs : ∀ t ∈ args, t.Written ∧ t.ReadsBack) {s : List Char} (hs : AtomEnds s) :
    Reads (typePath (complexType .nowhere)) (TypePath.print ⟨pack, name, args.map .type, sub⟩)
      (TypePath.relocate (fun _ => .null) ⟨pack, name, args.map .type, sub⟩) s := by
  intro t ht
  rw [print_path, List.append_assoc] at ht
  have hrest : ∀ rest, rest = (if args = [] then [] else
      '<' :: joinWith ", " (args.map (·.print)) ++ ['>']) ++ s →
      Breaks rest ∧ (∀ c ∈ rest.head?, c ≠ '.') ∧
        ∃ args?, optional (typeArgs (complexType .nowhere)) rest = .done args? s ∧
          args?.getD [] = args.map fun t => TypeArg.type t.unplaced := by
    rintro rest rfl
    by_cases hne : args = []
    · subst hne
      refine ⟨hs.breaks, hs.noPoint, none, Refuses.optional_eq (Refuses.bind ?_), rfl⟩
      have hblanks : blanks s = .done () (skipBlanks s) := rfl
      exact Refuses.next hblanks (refuses_text (c := '<') (w := []) rfl hs.noArgs)
    · rw [if_neg hne]
      refine ⟨breaks_mark _ (by decide), ?_, _, optional_of_done ?_, rfl⟩
      · intro c hc
        cases hc
        decide
      · have hall := reads_typeArgs hne hargs s
        rw [← hall]
        simp
  obtain ⟨hbreaks, hpoint, args?, hoptional, hvalue⟩ := hrest _ rfl
  have hdotted := reads_dotted hbreaks hpoint (by simp) hparts t ht
  have hdrop : (pack ++ name :: sub.toList).drop (typeIndex (pack ++ name :: sub.toList)) =
      name :: sub.toList := by
    rw [hindex, List.drop_left]
  have htake : (pack ++ name :: sub.toList).take (typeIndex (pack ++ name :: sub.toList)) =
      pack := by
    rw [hindex, List.take_left]
  rw [typePath, bind_of_done (here_apply t), bind_of_done hdotted]
  have hpath : TypePath.relocate (fun _ => .null) ⟨pack, name, args.map .type, sub⟩ =
      ⟨pack, name, args?.getD [], sub⟩ := by
    rw [hvalue, TypePath.relocate, relocateTypeArgs_eq_map, List.map_map]
    rfl
  rw [hpath]
  cases sub with
  | none =>
    rw [Option.toList] at hdrop htake ⊢
    simp only [hdrop, htake]
    rw [bind_of_done hoptional]
    rfl
  | some sub =>
    rw [Option.toList] at hdrop htake ⊢
    simp only [hdrop, htake]
    rw [bind_of_done hoptional]
    rfl

theorem readsBack_path {pack : List String} {name : String} {args : List ComplexType}
    {sub : Option String} (hparts : ∀ part ∈ pack ++ name :: sub.toList, IsName part)
    (hindex : typeIndex (pack ++ name :: sub.toList) = pack.length)
    (hargs : ∀ t ∈ args, t.Written ∧ t.ReadsBack) :
    (ComplexType.path ⟨pack, name, args.map .type, sub⟩).ReadsBack := by
  refine readsBack_of_atom fun s hs t ht => ?_
  have hread := reads_typePath hparts hindex hargs hs t ht
  have hfirst : ∃ c r, skipBlanks t = c :: r ∧ Text.startsName c = true := by
    obtain ⟨c, hc, hstarts⟩ := dotted_start (by simp) hparts
    rw [ht, ComplexType.print, print_path]
    cases hdotted : dotted (pack ++ name :: sub.toList) with
    | nil =>
      rw [hdotted] at hc
      cases hc
    | cons d ds =>
      rw [hdotted] at hc
      cases hc
      exact ⟨c, _, rfl, hstarts⟩
  obtain ⟨c, r, hskip, hstarts⟩ := hfirst
  have hrefuses : ∀ (word : String) (d : Char) w, word.toList = d :: w →
      Text.startsName d = false → Refuses (symbol word) t := by
    intro word d w hword hd
    refine refuses_symbol hword hskip ?_
    rintro rfl
    rw [hstarts] at hd
    cases hd
  have hmark := hrefuses "?" '?' [] rfl (by decide)
  have hparen := hrefuses "(" '(' [] rfl (by decide)
  have hbrace : Refuses (anonymous .nowhere (arrows (atom .nowhere))) t :=
    (hrefuses "\x7b" '\x7b' [] rfl (by decide)).bind
  rw [complexType_eq] at hread
  rw [atom_eq]
  refine hmark.bind.or_eq.trans (hparen.bind.or_eq.trans (hbrace.bind.or_eq.trans ?_))
  rw [oneOf, bind_of_done hread]
  rfl

/-! ### Every type -/

/-- A type that was read from a text is read again from its own text. -/
theorem ComplexType.Written.readsBack {t : ComplexType} (h : t.Written) : t.ReadsBack := by
  induction h with
  | path hparts hindex hargs ih =>
    exact readsBack_path hparts hindex fun t ht => ⟨hargs t ht, ih t ht⟩
  | function hne hargs hatoms hret hatom ih ihret =>
    exact readsBack_function hne (fun t ht => ⟨hargs t ht, hatoms t ht, ih t ht⟩)
      ⟨hret, hatom, ihret⟩
  | anonymous hshape htypes ih =>
    exact readsBack_anonymous hshape fun f hf t ht => ⟨htypes f hf t ht, ih f hf t ht⟩
  | paren ht ih => exact readsBack_paren ht ih
  | optional ht hatom ih => exact readsBack_optional ht hatom ih

theorem TypePath.Written.reads {path : TypePath} (h : path.Written) {s : List Char}
    (hs : AtomEnds s) :
    Reads (typePath (complexType .nowhere)) path.print (path.relocate fun _ => .null) s := by
  cases h with
  | path hparts hindex hargs =>
    exact reads_typePath hparts hindex (fun t ht => ⟨hargs t ht, (hargs t ht).readsBack⟩) hs

end HaxeMacro
