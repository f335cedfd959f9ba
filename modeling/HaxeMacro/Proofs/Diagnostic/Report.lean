import Mathlib.Data.List.TakeWhile
import HaxeMacro.Diagnostic.Report
import HaxeMacro.Proofs.Codec.Visit

/-! # The mismatches in a report

A report numbers the mismatches of a value and ends each of them with a line end. A mismatch quotes
what it found, so it stands on one line only if the quoted text does.
-/

namespace HaxeMacro

/-! ## Lines -/

def IsLine (s : String) : Prop := '\n' ∉ s.toList

instance (s : String) : Decidable (IsLine s) := inferInstanceAs (Decidable ('\n' ∉ s.toList))

@[simp] theorem isLine_append (s t : String) : IsLine (s ++ t) ↔ IsLine s ∧ IsLine t := by
  simp [IsLine]

theorem isLine_nat (i : Nat) : IsLine (toString i) := by
  intro hmem
  have hdigit := Nat.isDigit_of_mem_toDigits (by decide) (Nat.le_refl 10) (Nat.toList_repr ▸ hmem)
  revert hdigit
  decide

theorem isLine_wholeText (i : Int64) : IsLine (wholeText i) := by
  unfold wholeText
  cases i.toInt with
  | ofNat n => exact isLine_nat n
  | negSucc n =>
    have hminus : IsLine "-" := by decide
    exact (isLine_append _ _).mpr ⟨hminus, isLine_nat (n + 1)⟩

def linesOf (s : String) : List (List Char) := s.toList.splitOn '\n'

theorem not_mem_of_mem_splitOn {c : Char} {s l : List Char} (h : l ∈ s.splitOn c) : c ∉ l := by
  induction s generalizing l with
  | nil => simp_all
  | cons x s ih =>
    rw [List.splitOn_eq_splitOnP, List.splitOnP_cons_eq_if_modifyHead] at h
    rw [List.splitOn_eq_splitOnP] at ih
    split at h
    · rcases List.mem_cons.mp h with rfl | h
      · simp
      · exact ih h
    · rename_i hx
      cases hs : s.splitOnP (· == c) with
      | nil => simp [hs] at h
      | cons first others =>
        rw [hs] at h ih
        rcases List.mem_cons.mp h with rfl | h
        · have hfirst : c ∉ first := ih List.mem_cons_self
          have hne : c ≠ x := fun heq => hx (beq_iff_eq.mpr heq.symm)
          simp [hne, hfirst]
        · exact ih (List.mem_cons_of_mem _ h)

theorem splitOn_flatMap_ends (ls : List (List Char)) (rest : List Char) :
    (ls.flatMap (· ++ ['\n']) ++ rest).splitOn '\n' =
      ls.flatMap (·.splitOn '\n') ++ rest.splitOn '\n' := by
  induction ls with
  | nil => rfl
  | cons l ls ih =>
    have hend := List.splitOn_append_cons_self (a := '\n') l (ls.flatMap (· ++ ['\n']) ++ rest)
    simpa [ih] using hend

theorem takeWhile_append_stop {α : Type} {p : α → Bool} {y : α} (hy : p y = false)
    (xs ys : List α) : (xs ++ y :: ys).takeWhile p = xs.takeWhile p := by
  induction xs with
  | nil => simp [hy]
  | cons x xs ih => simp [List.takeWhile_cons, ih]

/-- Lines that are read back as they were written, up to the first empty one, have no line end. -/
theorem takeWhile_flatMap_splitOn_iff {ls : List (List Char)} (hne : ∀ l ∈ ls, l ≠ []) :
    (ls.flatMap (·.splitOn '\n')).takeWhile (· ≠ []) = ls ↔ ∀ l ∈ ls, '\n' ∉ l := by
  constructor
  · intro h l hl
    rw [← h] at hl
    have hpiece := (List.takeWhile_prefix _).subset hl
    obtain ⟨_, -, hsplit⟩ := List.mem_flatMap.mp hpiece
    exact not_mem_of_mem_splitOn hsplit
  · intro h
    have hlines : ls.flatMap (·.splitOn '\n') = ls := by
      clear hne
      induction ls with
      | nil => rfl
      | cons l ls ih =>
        rw [List.flatMap_cons, List.splitOn_eq_singleton (h l List.mem_cons_self),
          ih fun l hl => h l (List.mem_cons_of_mem _ hl), List.singleton_append]
    rw [hlines, List.takeWhile_eq_self_iff]
    simpa using hne

/-! ## The listing -/

namespace Report

def heading : List Char := "Mismatches:".toList

theorem heading_ne_nil : heading ≠ [] := by decide

theorem newline_not_mem_heading : '\n' ∉ heading := by decide

/-- The lines between the heading and the next empty line. -/
def listing (text : String) : List (List Char) :=
  (((linesOf text).dropWhile (· ≠ heading)).drop 1).takeWhile (· ≠ [])

def items (ms : List Mismatch) : List (List Char) :=
  (ms.zipIdx 1).map fun (m, i) => (toString i ++ ". " ++ m.text).toList

theorem numbered_toList (i : Nat) (ms : List Mismatch) :
    (numbered i ms).toList =
      ((ms.zipIdx i).map fun (m, i) => (toString i ++ ". " ++ m.text).toList).flatMap
        (· ++ ['\n']) := by
  induction ms generalizing i with
  | nil => rfl
  | cons m ms ih => simp [numbered, ih]

def head (time expected : String) : String :=
  decodeTitle ++ " (" ++ time ++ ")\nExpected: " ++ expected

theorem linesOf_head {time expected : String} (htime : IsLine time) (hexpected : IsLine expected) :
    linesOf (head time expected) =
      [decodeTitle.toList ++ (" (" ++ time ++ ")").toList, ("Expected: " ++ expected).toList] := by
  have hbreak : ")\nExpected: ".toList = ")".toList ++ '\n' :: "Expected: ".toList := rfl
  have hfirst : IsLine (decodeTitle ++ (" (" ++ time ++ ")")) := by
    simp only [isLine_append]
    exact ⟨by decide, ⟨by decide, htime⟩, by decide⟩
  have hsecond : IsLine ("Expected: " ++ expected) :=
    (isLine_append _ _).mpr ⟨by decide, hexpected⟩
  have htext : (head time expected).toList =
      (decodeTitle ++ (" (" ++ time ++ ")")).toList ++ '\n' :: ("Expected: " ++ expected).toList := by
    simp only [head, String.toList_append, hbreak, List.append_assoc, List.cons_append]
  rw [linesOf, htext, List.splitOn_append_cons_self_of_not_mem hfirst,
    List.splitOn_eq_singleton hsecond, String.toList_append]

theorem heading_not_mem_head {time expected : String} (htime : IsLine time)
    (hexpected : IsLine expected) : heading ∉ linesOf (head time expected) := by
  intro h
  rw [linesOf_head htime hexpected] at h
  rcases List.mem_cons.mp h with h | h
  · have hsecond := congrArg (fun l => l[1]?) h
    cases hsecond
  · have hfirst := congrArg List.head? (List.mem_singleton.mp h)
    rw [String.toList_append] at hfirst
    cases hfirst

theorem between_lines {above : List (List Char)} (h : heading ∉ above)
    (body below : List (List Char)) :
    (((above ++ heading :: (body ++ [] :: below)).dropWhile (· ≠ heading)).drop 1).takeWhile
      (· ≠ []) = body.takeWhile (· ≠ []) := by
  have habove : ∀ l ∈ above, decide (l ≠ heading) = true := by
    intro l hl
    have hne : l ≠ heading := fun heq => h (heq ▸ hl)
    exact decide_eq_true hne
  rw [List.dropWhile_append_of_pos habove, List.dropWhile_cons_of_neg (by simp), List.drop_one,
    List.tail_cons, takeWhile_append_stop (by simp)]

theorem toList_text (path time expected : String) (v : Value) (ms : List Mismatch) :
    ((⟨path, decodeTitle, decodeBody v expected ms⟩ : Report).text time).toList =
      (head time expected).toList ++ '\n' :: '\n' :: (heading ++ '\n' ::
        ((items ms).flatMap (· ++ ['\n']) ++ '\n' ::
          ("Value:\n" ++ v.json.pretty 0 ++ "\n").toList)) := by
  have hbreak : "\n\nMismatches:\n".toList = '\n' :: '\n' :: (heading ++ ['\n']) := rfl
  have hhead : ")\nExpected: ".toList = ")\n".toList ++ "Expected: ".toList := rfl
  unfold Report.text decodeBody head
  simp only [String.toList_append, numbered_toList, hbreak, hhead, List.append_assoc,
    List.cons_append, List.nil_append, items]
  rfl

/-- The lines of the mismatches are taken up to the first empty one. -/
theorem listing_text {time expected : String} (path : String) (v : Value) (ms : List Mismatch)
    (hhead : heading ∉ linesOf (head time expected)) :
    listing ((⟨path, decodeTitle, decodeBody v expected ms⟩ : Report).text time) =
      ((items ms).flatMap (·.splitOn '\n')).takeWhile (· ≠ []) := by
  have habove : heading ∉ linesOf (head time expected) ++ [[]] := by
    simp [hhead, heading_ne_nil]
  have hnil := List.splitOn_append_cons_self_of_not_mem (List.not_mem_nil (a := '\n'))
  simp only [List.nil_append] at hnil
  rw [listing, linesOf, toList_text, List.splitOn_append_cons_self, hnil,
    List.splitOn_append_cons_self_of_not_mem newline_not_mem_heading, splitOn_flatMap_ends, hnil,
    List.append_cons, ← linesOf, between_lines habove]

end Report

/-! ## What a mismatch quotes -/

/-- The text by which the value is described has a line end in it. -/
def Value.HasLineEnd : Value → Prop
  | .string s => ¬ IsLine s
  | .enum type constructor _ _ => ¬ IsLine type ∨ ¬ IsLine constructor
  | _ => False

theorem Value.isLine_describe (v : Value) : IsLine v.describe ↔ ¬ v.HasLineEnd := by
  have hquote : IsLine "\"" := by decide
  have hstring : IsLine "String \"" := by decide
  have hint : IsLine "Int " := by decide
  have hdot : IsLine "." := by decide
  cases v with
  | string s => simp [describe, HasLineEnd, hquote, hstring]
  | enum t c index args => simp [describe, HasLineEnd, hdot]
  | int i => simp [describe, HasLineEnd, hint, isLine_wholeText]
  | _ => simp only [HasLineEnd, not_false_eq_true, iff_true, describe, typeName]; decide

/-- The names in the table have no line end. -/
def Shape.NamesAreLines : Shape → Prop
  | .leaf check => ∀ v fault, check v = some fault → IsLine fault.1
  | .object expected fields => IsLine expected ∧ ∀ field ∈ fields, IsLine field.1
  | .enum type slots? => IsLine type ∧ ∀ c slots, slots? c = some slots → IsLine c
  | .array _ => True

namespace Kind

theorem namesAreLines_offset : (Kind.shape .offset).NamesAreLines := by
  intro v fault h
  have hrange : IsLine "Position offset" := by decide
  have hint : IsLine "Int" := by decide
  unfold checkOffset at h
  split at h
  · split at h <;> cases h
    exact hrange
  · cases h
    exact hint

theorem namesAreLines_file : (Kind.shape .file).NamesAreLines := by
  intro v fault h
  unfold checkFile at h
  split at h
  · split at h
    · cases h
    · exact namesAreLines_offset _ _ h
  · have hint : IsLine "Int" := by decide
    cases h
    exact hint

theorem namesAreLines_plain {name : String} (hname : IsLine name) (fits : Value → Bool) :
    (Shape.leaf (plain name fits)).NamesAreLines := by
  intro v fault h
  unfold plain at h
  split at h <;> cases h
  exact hname

theorem isLine_of_plainOp? {c : String} {op : BinaryOp} (h : Decode.plainOp? c = some op) :
    IsLine c := by
  unfold Decode.plainOp? at h
  split at h <;> first | decide | cases h

theorem shape_namesAreLines (k : Kind) : k.shape.NamesAreLines := by
  induction k with
  | offset => exact namesAreLines_offset
  | file => exact namesAreLines_file
  | optional k ih => exact ih
  | array | arrayOrNull => trivial
  | string | bool | flag | int => exact namesAreLines_plain (by decide) _
  | binaryOp =>
    refine ⟨by decide, fun c slots h => ?_⟩
    unfold binaryOpSlots? at h
    split at h
    · rename_i hc
      rw [hc]
      decide
    · obtain ⟨op, hop, -⟩ := Option.map_eq_some_iff.mp h
      exact isLine_of_plainOp? hop
  | exprKind | constant | quotes | unaryOp | quoteStatus | functionKind | typeArg | complexType
  | access | fieldKind | typeDefKind | type =>
    refine ⟨by decide, fun c slots h => ?_⟩
    simp only [exprSlots?, constantSlots?, quotesSlots?, unaryOpSlots?, quoteStatusSlots?,
      functionKindSlots?, typeArgSlots?, complexTypeSlots?, accessSlots?, fieldKindSlots?,
      typeDefKindSlots?, typeSlots?] at h
    split at h <;> first | decide | cases h
  | _ => exact ⟨by decide, by decide⟩

end Kind

theorem Shape.isLine_expected {shape : Shape} (hnames : shape.NamesAreLines) {v : Value}
    {expected found : String} (h : shape.inspect v = .error (expected, found)) :
    IsLine expected := by
  cases shape with
  | leaf check =>
    cases hc : check v with
    | none => simp [inspect, hc] at h
    | some fault =>
      simp only [inspect, hc, Except.error.injEq] at h
      simpa [h] using hnames v fault hc
  | object => cases v <;> cases h <;> exact hnames.1
  | enum type slots? =>
    cases v with
    | enum t c index args =>
      simp only [inspect] at h
      split at h
      · split at h <;> cases h
        simp only [isLine_append]
        exact ⟨⟨by decide, hnames.1⟩, by decide⟩
      · cases h
        exact hnames.1
    | _ =>
      cases h
      exact hnames.1
  | array =>
    have harray : IsLine "Array" := by decide
    cases v <;> cases h <;> exact harray

theorem Kind.isLine_expected {k : Kind} {v : Value} {expected found : String}
    (h : k.inspect v = .error (expected, found)) : IsLine expected := by
  unfold inspect at h
  split at h
  · cases h
  · exact Shape.isLine_expected k.shape_namesAreLines h

theorem isLine_arg {c : String} (hc : IsLine c) (i : Nat) : IsLine (Step.arg c i).text := by
  simp only [Step.text, isLine_append]
  exact ⟨⟨⟨⟨by decide, hc⟩, by decide⟩, isLine_nat i⟩, by decide⟩

theorem Slot.step_of_mem_parts {c : String} {args : List Value} {i : Nat} {slots : List Slot}
    {p : Part} (hp : p ∈ Slot.parts c args i slots) : ∃ j, p.step = .arg c j := by
  induction slots generalizing i with
  | nil => simp [parts] at hp
  | cons slot slots ih =>
    rcases List.mem_cons.mp hp with rfl | hp
    · exact ⟨i, rfl⟩
    · exact ih hp

theorem step_of_mem_itemParts {item : Kind} {i : Nat} {items : List Value} {p : Part}
    (hp : p ∈ itemParts item i items) : ∃ j, p.step = .item j := by
  induction items generalizing i with
  | nil => simp [itemParts] at hp
  | cons v vs ih =>
    rcases List.mem_cons.mp hp with rfl | hp
    · exact ⟨i, rfl⟩
    · exact ih hp

theorem Kind.isLine_step {k : Kind} {v : Value} {parts : List Part} {p : Part}
    (h : k.inspect v = .ok parts) (hp : p ∈ parts) : IsLine p.step.text := by
  have hnames := k.shape_namesAreLines
  cases inspected h with
  | null | leaf => simp at hp
  | object hs given =>
    rw [hs] at hnames
    obtain ⟨field, hfield, rfl⟩ := List.mem_map.mp hp
    exact (isLine_append _ _).mpr ⟨by decide, hnames.2 field hfield⟩
  | enum hs hc =>
    rw [hs] at hnames
    obtain ⟨j, hstep⟩ := Slot.step_of_mem_parts hp
    rw [hstep]
    exact isLine_arg (hnames.2 _ _ hc) j
  | array =>
    obtain ⟨j, hstep⟩ := step_of_mem_itemParts hp
    simp only [hstep, Step.text, isLine_append]
    exact ⟨⟨by decide, isLine_nat j⟩, by decide⟩

theorem Visits.isLine_step {k l : Kind} {v u : Value} {path : List Step}
    (h : Visits k v path l u) : ∀ step ∈ path, IsLine step.text := by
  induction h with
  | here k v => simp
  | part hparts hp _ _ _ ih => simpa using ⟨Kind.isLine_step hparts hp, ih⟩

/-! ## One mismatch -/

namespace Mismatch

theorem isLine_place {m : Mismatch} (h : ∀ step ∈ m.path, IsLine step.text) : IsLine m.place := by
  unfold place
  generalize m.path = path at h
  induction path with
  | nil => decide
  | cons step path ih =>
    have hrest := ih fun s hs => h s (List.mem_cons_of_mem _ hs)
    exact (isLine_append _ _).mpr ⟨h step List.mem_cons_self, hrest⟩

theorem isLine_text {m : Mismatch} (hpath : ∀ step ∈ m.path, IsLine step.text)
    (hexpected : IsLine m.expected) : IsLine m.text ↔ IsLine m.found := by
  have hat : IsLine "at " := by decide
  have hroot : IsLine "<root>" := by decide
  have hsays : IsLine ": expected " := by decide
  have hfound : IsLine ", found " := by decide
  have hplace : IsLine (if m.place = "" then "<root>" else m.place) := by
    split
    · exact hroot
    · exact isLine_place hpath
  simp [text, hat, hplace, hsays, hexpected, hfound]

end Mismatch

theorem Value.follow?_append (v : Value) (path : List Step) (step : Step) :
    v.follow? (path ++ [step]) = (v.follow? path).bind fun w => w.step? step := by
  induction path generalizing v with
  | nil => cases h : v.step? step <;> simp [follow?, h]
  | cons first path ih => cases h : v.step? first <;> simp [follow?, h, ih]

namespace Kind

theorem isLine_of_mem_faults {k : Kind} {v : Value} {m : Mismatch} (hm : m ∈ k.faults v) :
    (∀ step ∈ m.path, IsLine step.text) ∧ IsLine m.expected := by
  obtain ⟨path, l, u, hvisits, hstands⟩ := visits_of_mem_faults hm
  cases hstands with
  | value h hm =>
    rw [hm]
    exact ⟨hvisits.isLine_step, isLine_expected h⟩
  | missing h hp _ hm =>
    have hvalue : IsLine "a value" := by decide
    rw [hm]
    refine ⟨fun step hstep => ?_, hvalue⟩
    rcases List.mem_append.mp hstep with hstep | hstep
    · exact hvisits.isLine_step step hstep
    · rw [List.mem_singleton.mp hstep]
      exact isLine_step h hp

theorem isLine_found_iff {k : Kind} {v : Value} {m : Mismatch} (hm : m ∈ k.faults v) :
    IsLine m.found ↔ ∀ w, v.follow? m.path = some w → ¬ w.HasLineEnd := by
  cases isTrueOf_of_mem_faults hm with
  | value hplace h =>
    simp only [hplace, Option.some.injEq, forall_eq']
    generalize m.expected = expected, m.found = found at h
    cases h with
    | itself => exact Value.isLine_describe _
    | unknown h index args =>
      -- The enum is one of the table, so a line end can only be in the constructor.
      obtain ⟨l, slots?, hs, -⟩ := h
      have hnames := l.shape_namesAreLines
      rw [hs] at hnames
      simp [Value.HasLineEnd, hnames.1]
    | outOfRange => simp [Value.HasLineEnd, isLine_wholeText]
  | missing hpath hplace h _ hfound =>
    have hnothing : IsLine "nothing" := by decide
    have hnone : v.follow? m.path = none := by
      simp [hpath, Value.follow?_append, hplace, Value.step?, h]
    simp [hfound, hnothing, hnone]

theorem isLine_text_iff {k : Kind} {v : Value} {m : Mismatch} (hm : m ∈ k.faults v) :
    IsLine m.text ↔ ∀ w, v.follow? m.path = some w → ¬ w.HasLineEnd := by
  obtain ⟨hpath, hexpected⟩ := isLine_of_mem_faults hm
  rw [Mismatch.isLine_text hpath hexpected, isLine_found_iff hm]

end Kind

/-! ## The report -/

theorem Report.isLine_items {ms : List Mismatch} :
    (∀ l ∈ items ms, '\n' ∉ l) ↔ ∀ m ∈ ms, IsLine m.text := by
  have hdot : IsLine ". " := by decide
  have hitem (m : Mismatch) (i : Nat) : IsLine (toString i ++ ". " ++ m.text) ↔ IsLine m.text := by
    simp only [isLine_append, isLine_nat, hdot, true_and]
  have hms : (∀ m ∈ ms, IsLine m.text) ↔ ∀ p ∈ ms.zipIdx 1, IsLine p.1.text := by
    rw [← List.forall_mem_map (f := Prod.fst) (P := fun m : Mismatch => IsLine m.text),
      List.zipIdx_map_fst]
  rw [items, List.forall_mem_map, hms]
  exact forall₂_congr fun p _ => hitem p.1 p.2

theorem Report.ne_nil_of_mem_items {ms : List Mismatch} : ∀ l ∈ items ms, l ≠ [] := by
  intro l hl
  obtain ⟨⟨m, i⟩, -, rfl⟩ := List.mem_map.mp hl
  simp

/-- The mismatches of a value that does not decode stand each on its numbered line of the report,
between the heading and the next empty line, exactly if the description of no value that they
quote has a line end. -/
theorem Kind.listing_report_iff {k : Kind} {v : Value} {folder : DumpFolder}
    {expected summary time : String} {pos p : Position} {r : Report}
    (h : (k.decode v).orReport folder v expected pos = .error (.decode summary (some r) p))
    (hhead : Report.heading ∉ linesOf (Report.head time expected)) :
    Report.listing (r.text time) = Report.items (k.decode v).faults ↔
      ∀ m ∈ (k.decode v).faults, ∀ w, v.follow? m.path = some w → ¬ w.HasLineEnd := by
  have hr : ∃ path, r = ⟨path, Report.decodeTitle,
      Report.decodeBody v expected (k.decode v).faults⟩ := by
    cases hd : k.decode v with
    | ok a => simp [hd, Decoded.orReport] at h
    | faulty first others =>
      simp only [hd, Decoded.orReport, DumpFolder.write, Except.error.injEq] at h
      split at h <;> cases h
      exact ⟨_, rfl⟩
  obtain ⟨path, rfl⟩ := hr
  have hfaults (m : Mismatch) (hm : m ∈ (k.decode v).faults) :
      IsLine m.text ↔ ∀ w, v.follow? m.path = some w → ¬ w.HasLineEnd :=
    isLine_text_iff (faults_decode k v ▸ hm)
  rw [Report.listing_text path v _ hhead, takeWhile_flatMap_splitOn_iff Report.ne_nil_of_mem_items,
    Report.isLine_items]
  exact forall₂_congr hfaults

theorem Kind.listing_report_two_faults :
    let v := Value.object [("expr", .int 3), ("pos", .string "here")]
    ∃ summary r, (expr.decode v).orReport ⟨"", true⟩ v "Expr" ⟨0, 0, 0⟩ =
        .error (.decode summary (some r) ⟨0, 0, 0⟩) ∧
      Report.listing (r.text "now") = Report.items (expr.decode v).faults := by
  intro v
  have h : (expr.decode v).orReport ⟨"", true⟩ v "Expr" ⟨0, 0, 0⟩ =
    .error (.decode _ (some _) ⟨0, 0, 0⟩) := rfl
  have hhead : Report.heading ∉ linesOf (Report.head "now" "Expr") :=
    Report.heading_not_mem_head (by decide) (by decide)
  refine ⟨_, _, h, (listing_report_iff h hhead).mpr ?_⟩
  have hfaults : (expr.decode v).faults = [⟨[.field "expr"], "ExprDef", "Int 3"⟩,
      ⟨[.field "pos"], "Position", "String \"here\""⟩] := by
    decide
  have hnumber : v.follow? [.field "expr"] = some (.int 3) := rfl
  have htext : v.follow? [.field "pos"] = some (.string "here") := rfl
  have hhere : IsLine "here" := by decide
  simp [hfaults, hnumber, htext, Value.HasLineEnd, hhere]

/-- A text of two paragraphs is cut off after the first one. -/
theorem Kind.not_listing_paragraphs :
    let v := Value.string "a\n\nb"
    ∃ summary r, (expr.decode v).orReport ⟨"", true⟩ v "Expr" ⟨0, 0, 0⟩ =
        .error (.decode summary (some r) ⟨0, 0, 0⟩) ∧
      Report.listing (r.text "now") ≠ Report.items (expr.decode v).faults := by
  intro v
  refine ⟨_, _, rfl, fun heq => ?_⟩
  have hhead : Report.heading ∉ linesOf (Report.head "now" "Expr") :=
    Report.heading_not_mem_head (by decide) (by decide)
  rw [Report.listing_text _ _ _ hhead] at heq
  have hlines := (takeWhile_flatMap_splitOn_iff Report.ne_nil_of_mem_items).mp heq
  have hfirst := Report.isLine_items.mp hlines _ List.mem_cons_self
  revert hfirst
  decide

end HaxeMacro
