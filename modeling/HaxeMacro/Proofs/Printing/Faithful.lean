import HaxeMacro.Proofs.Fragment.Visits
import HaxeMacro.Proofs.Printing.ReadBackForms

/-! # Which expressions are read back

The printer puts no blanks and no parentheses between a part and what comes after it. Where nothing
runs together there, an expression of a form that is read is read back, by induction on its forms.
-/

namespace HaxeMacro

open Parser Token Grammar

namespace ExprKind

/-! ## Where tokens stay apart -/

/-- The parts that an operator or a suffix comes after. -/
def bases : ExprKind → List Expr
  | .binary _ e _ | .ternary e _ _ | .field e _ | .index e _ | .call e _ | .unary _ true e => [e]
  | _ => []

def listed : ExprKind → List Expr
  | .array items => items.dropLast
  | .call _ args | .new _ args => args.dropLast
  | .annotated entry _ => entry.args.dropLast
  | .object fields => fields.dropLast.map (·.value)
  | .vars vs => vs.dropLast.filterMap (·.init)
  | .function _ func => func.params.dropLast.filterMap (·.default)
  | .ternary _ yes _ => [yes]
  | .checkType e _ | .cast e (some _) => [e]
  | _ => []

def repeated : ExprKind → List Expr
  | .loop _ body false => [body]
  | _ => []

/-- No part ends with a declaration or a `return` that could go on with what comes after it. -/
structure Tidy (kind : ExprKind) : Prop where
  bases : ∀ e ∈ kind.bases,
    e.kind.endsWith isDeclaration = false ∧ e.kind.endsWith isBareReturn = false
  listed : ∀ e ∈ kind.listed, e.kind.endsWith isDeclaration = false
  repeated : ∀ e ∈ kind.repeated, e.kind.endsWith isBareReturn = false

instance (kind : ExprKind) : Decidable kind.Tidy :=
  decidable_of_iff
    ((∀ e ∈ kind.bases,
        e.kind.endsWith isDeclaration = false ∧ e.kind.endsWith isBareReturn = false) ∧
      (∀ e ∈ kind.listed, e.kind.endsWith isDeclaration = false) ∧
      ∀ e ∈ kind.repeated, e.kind.endsWith isBareReturn = false)
    ⟨fun ⟨hbases, hlisted, hrepeated⟩ => ⟨hbases, hlisted, hrepeated⟩,
      fun h => ⟨h.bases, h.listed, h.repeated⟩⟩

def SignsApart : ExprKind → Prop
  | .const (.int text) | .const (.float text) => text.toList.take 2 ≠ ['-', '-']
  | .unary .neg false e => e.print.head? ≠ some '-'
  | _ => True

instance (kind : ExprKind) : Decidable kind.SignsApart := by
  unfold SignsApart
  split <;> infer_instance

/-- Two minus signs together would be one decrement, and no form that is not one. -/
theorem print_of_not_signsApart {kind : ExprKind} (h : ¬kind.SignsApart) :
    (∃ s, kind.print = '-' :: '-' :: s) ∧ kind.IsOperand ∧
      ∀ f operand, kind.relocate f ≠ .unary .decrement false operand := by
  have htake (s : List Char) (hs : ¬s.take 2 ≠ ['-', '-']) : ∃ t, s = '-' :: '-' :: t := by
    refine ⟨s.drop 2, ?_⟩
    rw [← List.take_append_drop 2 s, Decidable.not_not.mp hs]
    rfl
  unfold SignsApart at h
  split at h
  · exact ⟨htake _ h, trivial, nofun⟩
  · exact ⟨htake _ h, trivial, nofun⟩
  · rename_i e
    obtain ⟨s, hs⟩ := List.head?_eq_some_iff.mp (Decidable.not_not.mp h)
    refine ⟨⟨s, ?_⟩, trivial, nofun⟩
    rw [print, hs]
    rfl
  · exact absurd trivial h

def DoubleQuoted (kind : ExprKind) : Prop := ∀ text, kind ≠ .const (.string text .single)

/-- What the printer needs of a form. -/
structure Faithful (kind : ExprKind) : Prop where
  tidy : kind.Tidy
  signs : kind.SignsApart
  quotes : kind.DoubleQuoted

structure Sound (kind : ExprKind) : Prop extends kind.Faithful where
  parts : ∀ e ∈ kind.children, ∀ node ∈ e.nodes, node.kind.Faithful

theorem Sound.child {kind : ExprKind} (h : kind.Sound) {e : Expr} (he : e ∈ kind.children) :
    e.kind.Sound := by
  obtain ⟨hroot, hparts⟩ := Expr.forall_mem_nodes.mp (h.parts e he)
  exact ⟨hroot, hparts⟩

/-! ## Forms without an open end -/

theorem Written.closed_not_greedy {kind : ExprKind} (h : kind.Written) (hclosed : kind.IsClosed) :
    kind.endsWith isGreedy = false := by
  rw [endsWith_of_noLast _ hclosed.noLast]
  have hlast := hclosed.noLast
  cases h with
  | loop _ _ testFirst =>
    cases testFirst with
    | true => cases hlast
    | false => rfl
  | @ret value _ =>
    cases value with
    | some e => cases hlast
    | none => rfl
  | _ => first | rfl | cases hlast

/-- What stands before a suffix leaves it alone. -/
theorem Written.closed_fits {kind : ExprKind} {e : Expr} (h : e.kind.Written)
    (hclosed : e.kind.IsClosed) (htidy : kind.Tidy) (he : e ∈ kind.bases) (s : List Char)
    (hs : Breaks s) : e.kind.Fits s :=
  fits_of_closed s hs (h.closed_not_greedy hclosed) (htidy.bases e he).2 (htidy.bases e he).1

/-! ## Constants -/

theorem unsigned_of_take {text : String} (h : ("-" ++ text).toList.take 2 ≠ ['-', '-']) :
    text.toList.head? ≠ some '-' := by
  intro hhead
  obtain ⟨r, hr⟩ := List.head?_eq_some_iff.mp hhead
  refine h ?_
  rw [String.toList_append, hr]
  rfl

theorem readsBack_negated {c c' : Constant} {text : String} (hc : c.Written)
    (hprint : c.print = text.toList) (happly : ∀ pos, applyLeading .neg ⟨.const c, pos⟩ = .const c')
    (hprint' : c'.print = '-' :: text.toList) (hsigned : c'.isSigned = true)
    (hsign : text.toList.head? ≠ some '-') : (ExprKind.const c').ReadsBack := by
  rw [← hprint] at hsign
  cases hc with
  | number h =>
    refine (TightBack.signed h hprint happly hprint').readsBack fun hclosed => ?_
    rw [hclosed.unsigned c' rfl] at hsigned
    cases hsigned
  | negatedInt | negatedFloat =>
    rw [Constant.print, chars, String.toList_append] at hsign
    exact absurd rfl hsign
  | regexp h =>
    obtain ⟨pattern, flags, rfl⟩ := regexp_of_literal h
    cases happly .null
  | string | ident => cases happly .null

theorem readsBack_const {c : Constant} (h : c.Written) (hsigns : (ExprKind.const c).SignsApart)
    (hquotes : (ExprKind.const c).DoubleQuoted) : (ExprKind.const c).ReadsBack := by
  cases h with
  | number h => exact (baseBack_number h).readsBack
  | negatedInt h | negatedFloat h =>
    have htext (text : String) : ("-" ++ text).toList = '-' :: text.toList := by
      rw [String.toList_append]
      rfl
    refine readsBack_negated h rfl (fun _ => rfl) (htext _) ?_ (unsigned_of_take hsigns)
    rw [Constant.isSigned, htext]
    rfl
  | string text quotes =>
    cases quotes with
    | double => exact (baseBack_string text).readsBack
    | single => exact absurd rfl (hquotes text)
  | regexp h => exact (baseBack_regexp h).readsBack
  | ident h => exact (baseBack_ident h).readsBack

/-! ## All forms -/

theorem Written.readsBack {kind : ExprKind} (h : kind.Written) (hsound : kind.Sound) :
    kind.ReadsBack := by
  induction h with
  | const h => exact readsBack_const h hsound.signs hsound.quotes
  | paren h ih =>
    have he := ih (hsound.child List.mem_cons_self)
    exact (baseBack_paren he).readsBack
  | checkType h ht ih =>
    have he := ih (hsound.child List.mem_cons_self)
    have hlisted := hsound.tidy.listed _ List.mem_cons_self
    exact (baseBack_checkType he hlisted ht).readsBack
  | @object fields hne hnames h ih =>
    have hfields := fun field hfield => ih field hfield (hsound.child (List.mem_map_of_mem hfield))
    have hlisted : ∀ field ∈ fields.dropLast, field.value.kind.endsWith isDeclaration = false :=
      fun field hfield => hsound.tidy.listed _ (List.mem_map_of_mem hfield)
    exact (baseBack_object hne hnames hfields hlisted).readsBack
  | array h ih =>
    have hitems := fun e he => ih e he (hsound.child he)
    exact (baseBack_array hitems hsound.tidy.listed).readsBack
  | block h ih =>
    have hitems := fun e he => ih e he (hsound.child he)
    exact (baseBack_block hitems).readsBack
  | new hpath h ih =>
    have hargs := fun e he => ih e he (hsound.child he)
    exact (baseBack_new hpath hargs hsound.tidy.listed).readsBack
  | vars hne hshape h ih =>
    have hinits := fun v hv e he =>
      ih v hv e he (hsound.child (List.mem_filterMap.mpr ⟨v, hv, he⟩))
    have hlisted := fun v hv e he => hsound.tidy.listed e (List.mem_filterMap.mpr ⟨v, hv, he⟩)
    exact (baseBack_vars hne hshape hinits hlisted).readsBack
  | function hkind hparams h hret hbody ih ihbody =>
    have hdefaults := fun p hp e he => ih p hp e he
      (hsound.child (List.mem_append_left _ (List.mem_filterMap.mpr ⟨p, hp, he⟩)))
    have hlisted := fun p hp e he => hsound.tidy.listed e (List.mem_filterMap.mpr ⟨p, hp, he⟩)
    have hbody := ihbody (hsound.child (List.mem_append_right _ List.mem_cons_self))
    exact (baseBack_function hkind hparams hdefaults hlisted hret hbody).readsBack
  | forIn place pos hname hrange hbody ihrange ihbody =>
    -- The range is a part of the head, which is no expression that is read on its own.
    have hhead := hsound.child List.mem_cons_self
    have hrange := ihrange (hhead.child (List.mem_cons_of_mem _ List.mem_cons_self))
    have hbody := ihbody (hsound.child (List.mem_cons_of_mem _ List.mem_cons_self))
    exact (baseBack_forIn place pos hname hrange hbody).readsBack
  | cond htest hyes ihtest ihyes =>
    have htest := ihtest (hsound.child List.mem_cons_self)
    have hyes := ihyes (hsound.child (List.mem_cons_of_mem _ List.mem_cons_self))
    exact (baseBack_cond htest hyes).readsBack
  | condElse htest hyes hown hno ihtest ihyes ihno =>
    have htest := ihtest (hsound.child List.mem_cons_self)
    have hyes := ihyes (hsound.child (List.mem_cons_of_mem _ List.mem_cons_self))
    have hno := ihno (hsound.child (by simp [children]))
    exact (baseBack_condElse htest hyes hown hno).readsBack
  | loop htest hbody testFirst ihtest ihbody =>
    have htest := ihtest (hsound.child List.mem_cons_self)
    have hbody := ihbody (hsound.child (List.mem_cons_of_mem _ List.mem_cons_self))
    cases testFirst with
    | true => exact (baseBack_while htest hbody).readsBack
    | false =>
      have hrepeated := hsound.tidy.repeated _ List.mem_cons_self
      exact (baseBack_doWhile htest hbody hrepeated).readsBack
  | @ret value h ih =>
    cases value with
    | none => exact baseBack_bareReturn.readsBack
    | some e => exact (baseBack_return (ih e rfl (hsound.child List.mem_cons_self))).readsBack
  | brk => exact baseBack_brk.readsBack
  | cont => exact baseBack_cont.readsBack
  | untyped h ih => exact (baseBack_untyped (ih (hsound.child List.mem_cons_self))).readsBack
  | throw h ih => exact (baseBack_throw (ih (hsound.child List.mem_cons_self))).readsBack
  | castTo h ht ih =>
    have he := ih (hsound.child List.mem_cons_self)
    have hlisted := hsound.tidy.listed _ List.mem_cons_self
    exact (baseBack_castTo he hlisted ht).readsBack
  | cast h hop ih =>
    have he := ih (hsound.child List.mem_cons_self)
    exact (baseBack_cast (he.tight hop) hop).readsBack
  | annotated hname hargs h ihargs ih =>
    have hargs := fun e he => ihargs e he (hsound.child (List.mem_append_left _ he))
    have he := ih (hsound.child (List.mem_append_right _ List.mem_cons_self))
    exact (baseBack_annotated hname hargs hsound.tidy.listed he).readsBack
  | field h hclosed hname ih =>
    have he := (ih (hsound.child List.mem_cons_self)).base hclosed
    have hfits := h.closed_fits hclosed hsound.tidy List.mem_cons_self
    exact (baseBack_field he hclosed hfits hname).readsBack
  | call h hclosed hargs ih ihargs =>
    have he := (ih (hsound.child List.mem_cons_self)).base hclosed
    have hfits := h.closed_fits hclosed hsound.tidy List.mem_cons_self
    have hargs := fun e he => ihargs e he (hsound.child (List.mem_cons_of_mem _ he))
    exact (baseBack_call he hclosed hfits hargs hsound.tidy.listed).readsBack
  | index h hclosed hi ih ihi =>
    have he := (ih (hsound.child List.mem_cons_self)).base hclosed
    have hfits := h.closed_fits hclosed hsound.tidy List.mem_cons_self
    have hi := ihi (hsound.child (List.mem_cons_of_mem _ List.mem_cons_self))
    exact (baseBack_index he hclosed hfits hi).readsBack
  | trailing h hclosed hop ih =>
    have he := (ih (hsound.child List.mem_cons_self)).base hclosed
    have hfits := h.closed_fits hclosed hsound.tidy List.mem_cons_self
    exact (baseBack_trailing he hclosed hfits hop).readsBack
  | @leading op e h hop happly ih =>
    have he := ih (hsound.child List.mem_cons_self)
    refine (he.tight hop).leading happly (fun hneg c hc => ?_) |>.readsBack fun hclosed => ?_
    · subst hneg
      rintro rfl
      refine hsound.signs ?_
      rw [Expr.print_eq]
      exact hc
    · cases hclosed.noLast
  | binary hop hleft hright hlevel hends hright' ihleft ihright =>
    obtain ⟨word, hop⟩ := hop
    have hl := ihleft (hsound.child List.mem_cons_self)
    have hr := ihright (hsound.child (List.mem_cons_of_mem _ List.mem_cons_self))
    obtain ⟨hdeclared, hreturn⟩ := hsound.tidy.bases _ List.mem_cons_self
    exact readsBack_binary hop hl hr hlevel hright' fun s =>
      fits_of_closed _ (breaks_space s) hends hreturn hdeclared
  | ternary htest hyes hno hlevel hends halternative ihtest ihyes ihno =>
    have ht := ihtest (hsound.child List.mem_cons_self)
    have hy := ihyes (hsound.child (List.mem_cons_of_mem _ List.mem_cons_self))
    have hn := ihno (hsound.child (by simp [children]))
    obtain ⟨hdeclared, hreturn⟩ := hsound.tidy.bases _ List.mem_cons_self
    exact readsBack_ternary ht hy hn hlevel halternative
      (fun s => fits_of_closed _ (breaks_space s) hends hreturn hdeclared)
      fun s => stops_colon s (hsound.tidy.listed _ List.mem_cons_self)

end ExprKind

end HaxeMacro
