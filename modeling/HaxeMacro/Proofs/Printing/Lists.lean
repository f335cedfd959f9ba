import HaxeMacro.Proofs.Parser.Words

/-! # Reading printed lists

A list is printed with a comma and a blank between its items. It is read back if every item is, from
the text that comes after it.
-/

namespace HaxeMacro

namespace Parser

open Token

variable {α β : Type}

/-- However many blanks stand before `text` and `s`, the parser reads `text` as `a` and leaves
`s`. -/
def Reads (p : Parser α) (text : List Char) (a : α) (s : List Char) : Prop :=
  ∀ t, skipBlanks t = text ++ s → p t = .done a s

theorem Reads.append {p : Parser α} {text s : List Char} {a : α} (h : Reads p text a s)
    (hstart : StartsToken text) : p (text ++ s) = .done a s := h _ (hstart.skipBlanks_append s)

theorem Reads.space {p : Parser α} {text s : List Char} {a : α} (h : Reads p text a s)
    (hstart : StartsToken text) : p (' ' :: (text ++ s)) = .done a s := by
  refine h _ ?_
  rw [skipBlanks_space, hstart.skipBlanks_append]

theorem reads_symbol (word : String) (s : List Char) : Reads (symbol word) (chars word) () s := by
  intro t ht
  have hblanks : blanks t = .done () (chars word ++ s) := by rw [blanks, ht]
  exact (bind_of_done hblanks).trans (text_append word s)

theorem refuses_symbol {word : String} {c d : Char} {w s t : List Char}
    (hword : word.toList = c :: w) (ht : skipBlanks t = d :: s) (hne : d ≠ c) :
    Refuses (symbol word) t := by
  have hblanks : blanks t = .done () (d :: s) := by rw [blanks, ht]
  refine Refuses.next hblanks (refuses_text hword ?_)
  intro e he
  cases he
  exact hne

theorem joinWith_cons (text : List Char) (texts : List (List Char)) :
    joinWith ", " (text :: texts) = text ++ texts.flatMap fun t => ',' :: ' ' :: t := by
  induction texts generalizing text with
  | nil => exact (List.append_nil text).symm
  | cons t texts ih =>
    have hsep : chars ", " = [',', ' '] := rfl
    rw [joinWith, ih, hsep, List.flatMap_cons]
    · simp
    · exact List.cons_ne_nil t texts

theorem startsToken_joinWith {print : β → List Char} {xs : List β} (hne : xs ≠ [])
    (hstart : ∀ x ∈ xs, StartsToken (print x)) : StartsToken (joinWith ", " (xs.map print)) := by
  cases xs with
  | nil => exact absurd rfl hne
  | cons x xs =>
    rw [List.map_cons, joinWith_cons]
    exact (hstart x List.mem_cons_self).append _

theorem mem_getLast?_cons {x y : β} {ys : List β} (h : y ∈ ys.getLast?) :
    y ∈ (x :: ys).getLast? := by
  cases ys with
  | nil => cases h
  | cons z zs => exact h

theorem symbol_comma (s : List Char) : symbol "," (',' :: s) = .done () s := rfl

theorem sepBy_nil {p : Parser α} {separator : Parser β} {s : List Char} (hnone : Refuses p s) :
    sepBy p separator s = .done [] s := by
  have hsepBy1 : Refuses (sepBy1 p separator) s := hnone.bind
  rw [sepBy, bind_of_done hsepBy1.optional_eq]
  rfl

section

variable {p : Parser α} (heats : Eats 1 p) {print : β → List Char} {value : β → α}
  {Follows : β → List Char → Prop} {s : List Char}
include heats

theorem many_comma (hend : Refuses (do let _ ← symbol ","; p) s) (xs : List β)
    (hread : ∀ x ∈ xs, ∀ t, Follows x t → Reads p (print x) (value x) t)
    (hstart : ∀ x ∈ xs, StartsToken (print x))
    (hlast : ∀ x ∈ xs.getLast?, Follows x s)
    (hnext : Neighbours (fun x y => ∀ t, Follows x (',' :: ' ' :: (print y ++ t))) xs) :
    many (do let _ ← symbol ","; p) ((xs.map print).flatMap (fun t => ',' :: ' ' :: t) ++ s) =
      .done (xs.map value) s := by
  have heats' : Eats 1 (do let _ ← symbol ","; p) := Keeps.eats fun n =>
    (keeps_symbol n (by decide)).andThen fun _ => (heats.keeps n).weaken
  induction xs with
  | nil => exact hend.many_eq
  | cons x xs ih =>
    have hfollows : Follows x ((xs.map print).flatMap (fun t => ',' :: ' ' :: t) ++ s) := by
      cases xs with
      | nil => exact hlast x rfl
      | cons y ys =>
        have hxy := hnext.1 ((ys.map print).flatMap (fun t => ',' :: ' ' :: t) ++ s)
        simpa using hxy
    have hrest : Neighbours (fun x y => ∀ t, Follows x (',' :: ' ' :: (print y ++ t))) xs := by
      cases xs with
      | nil => trivial
      | cons y ys => exact hnext.2
    have hmany := ih (fun y hy => hread y (List.mem_cons_of_mem _ hy))
      (fun y hy => hstart y (List.mem_cons_of_mem _ hy))
      (fun y hy => hlast y (mem_getLast?_cons hy)) hrest
    refine many_of_done heats' ?_ hmany
    rw [List.map_cons, List.flatMap_cons, List.append_assoc, List.cons_append,
      bind_of_done (symbol_comma _)]
    refine hread x List.mem_cons_self _ hfollows _ ?_
    rw [List.cons_append, skipBlanks_space, (hstart x List.mem_cons_self).skipBlanks_append]

theorem reads_sepBy1 (hend : Refuses (do let _ ← symbol ","; p) s) {xs : List β} (hne : xs ≠ [])
    (hread : ∀ x ∈ xs, ∀ t, Follows x t → Reads p (print x) (value x) t)
    (hstart : ∀ x ∈ xs, StartsToken (print x))
    (hlast : ∀ x ∈ xs.getLast?, Follows x s)
    (hnext : Neighbours (fun x y => ∀ t, Follows x (',' :: ' ' :: (print y ++ t))) xs) :
    Reads (sepBy1 p (symbol ",")) (joinWith ", " (xs.map print)) (xs.map value) s := by
  cases xs with
  | nil => exact absurd rfl hne
  | cons x xs =>
    have hfollows : Follows x ((xs.map print).flatMap (fun t => ',' :: ' ' :: t) ++ s) := by
      cases xs with
      | nil => exact hlast x rfl
      | cons y ys =>
        have hxy := hnext.1 ((ys.map print).flatMap (fun t => ',' :: ' ' :: t) ++ s)
        simpa using hxy
    have hrest : Neighbours (fun x y => ∀ t, Follows x (',' :: ' ' :: (print y ++ t))) xs := by
      cases xs with
      | nil => trivial
      | cons y ys => exact hnext.2
    have hmany := many_comma heats hend xs (fun y hy => hread y (List.mem_cons_of_mem _ hy))
      (fun y hy => hstart y (List.mem_cons_of_mem _ hy))
      (fun y hy => hlast y (mem_getLast?_cons hy)) hrest
    intro t ht
    rw [List.map_cons, joinWith_cons, List.append_assoc] at ht
    have hx := hread x List.mem_cons_self _ hfollows t ht
    rw [sepBy1, bind_of_done hx, bind_of_done hmany]
    rfl

theorem reads_sepBy (hend : Refuses (do let _ ← symbol ","; p) s) {xs : List β} (hne : xs ≠ [])
    (hread : ∀ x ∈ xs, ∀ t, Follows x t → Reads p (print x) (value x) t)
    (hstart : ∀ x ∈ xs, StartsToken (print x))
    (hlast : ∀ x ∈ xs.getLast?, Follows x s)
    (hnext : Neighbours (fun x y => ∀ t, Follows x (',' :: ' ' :: (print y ++ t))) xs) :
    Reads (sepBy p (symbol ",")) (joinWith ", " (xs.map print)) (xs.map value) s := by
  intro t ht
  have hall := reads_sepBy1 heats hend hne hread hstart hlast hnext t ht
  rw [sepBy, bind_of_done (optional_of_done hall)]
  rfl

end

end Parser

end HaxeMacro
