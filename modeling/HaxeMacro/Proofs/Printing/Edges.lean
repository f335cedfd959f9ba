import HaxeMacro.Proofs.Fragment.Visits

/-! # How expressions end

The text of many forms ends with the text of a part, and what follows the form follows that part as
well. What may follow depends on the forms along this edge.
-/

namespace HaxeMacro

/-! ## The last part -/

namespace ExprKind

/-- The part that the text of the form ends with. -/
def lastPart : ExprKind → Option Expr
  | .binary _ _ e | .unary _ false e | .ternary _ _ e | .forIn _ e | .loop _ e true => some e
  | .untyped e | .throw e | .cast e none | .annotated _ e => some e
  | .cond _ yes none => some yes
  | .cond _ _ (some no) => some no
  | .ret value => value
  | .function _ func => func.body
  | .vars vs => vs.getLast?.bind (·.init)
  | _ => none

/-- The last part is read as far as it goes. -/
def isGreedy : ExprKind → Bool
  | .forIn .. | .loop _ _ true | .function .. | .cond .. | .ret (some _) => true
  | .untyped _ | .throw _ | .annotated .. => true
  | _ => false

def isElseless : ExprKind → Bool
  | .cond _ _ none => true
  | _ => false

def isBareReturn : ExprKind → Bool
  | .ret none => true
  | _ => false

def isDeclaration : ExprKind → Bool
  | .vars _ => true
  | _ => false

end ExprKind

/-! ## Along the edge -/

section
variable (p : ExprKind → Bool)

mutual

/-- Whether the form of the expression, or that of the last part of its last part and so on, is
like `p`. -/
def Expr.endsWith : Expr → Bool
  | ⟨kind, _⟩ => p kind || kind.endsInside

def ExprKind.endsInside : ExprKind → Bool
  | .binary _ _ e | .unary _ false e | .ternary _ _ e | .forIn _ e | .loop _ e true => e.endsWith
  | .untyped e | .throw e | .cast e none | .annotated _ e => e.endsWith
  | .cond _ yes none => yes.endsWith
  | .cond _ _ (some no) => no.endsWith
  | .ret (some e) => e.endsWith
  | .function _ func => func.endsInside
  | .vars vs => varsEndInside false vs
  | _ => false

def FunctionDef.endsInside : FunctionDef → Bool
  | ⟨_, _, some body, _⟩ => body.endsWith
  | ⟨_, _, none, _⟩ => false

/-- The answer of the last variable; `answer` is that of the one before these. -/
def varsEndInside (answer : Bool) : List Var → Bool
  | [] => answer
  | ⟨_, _, init, _, _, _⟩ :: vs => varsEndInside (initEndsWith init) vs

def initEndsWith : Option Expr → Bool
  | none => false
  | some e => e.endsWith

end

def ExprKind.endsWith (kind : ExprKind) : Bool := p kind || kind.endsInside p

theorem initEndsWith_eq (e? : Option Expr) : initEndsWith p e? = e?.any (·.endsWith p) := by
  cases e? <;> rfl

theorem varsEndInside_cons (answer : Bool) (v : Var) (vs : List Var) :
    varsEndInside p answer (v :: vs) = varsEndInside p (v.init.any (·.endsWith p)) vs := by
  obtain ⟨name, type, init, isFinal, isStatic, annotations⟩ := v
  rw [varsEndInside, initEndsWith_eq]

theorem varsEndInside_eq (answer : Bool) (v : Var) (vs : List Var) :
    varsEndInside p answer (v :: vs) =
      ((v :: vs).getLast?.bind (·.init)).any (·.endsWith p) := by
  induction vs generalizing answer v with
  | nil =>
    rw [varsEndInside_cons]
    rfl
  | cons w ws ih => rw [varsEndInside_cons, ih, List.getLast?_cons_cons]

theorem ExprKind.endsInside_eq (kind : ExprKind) :
    kind.endsInside p = kind.lastPart.any (·.endsWith p) := by
  cases kind with
  | vars vs =>
    cases vs with
    | nil => rfl
    | cons v vs => exact varsEndInside_eq p false v vs
  | function kind func =>
    obtain ⟨params, ret, body, typeParams⟩ := func
    cases body <;> rfl
  | unary op after e => cases after <;> rfl
  | loop test body first => cases first <;> rfl
  | cond test yes no => cases no <;> rfl
  | ret value => cases value <;> rfl
  | cast e type => cases type <;> rfl
  | _ => rfl

theorem Expr.endsWith_eq (e : Expr) : e.endsWith p = e.kind.endsWith p := by
  cases e
  rfl

namespace ExprKind

variable {kind : ExprKind} {e : Expr}

theorem endsWith_of_noLast (h : kind.lastPart = none) : kind.endsWith p = p kind := by
  rw [endsWith, endsInside_eq, h, Option.any_none, Bool.or_false]

theorem endsWith_of_lastPart (h : kind.lastPart = some e) :
    kind.endsWith p = (p kind || e.kind.endsWith p) := by
  rw [endsWith, endsInside_eq, h, Option.any_some, Expr.endsWith_eq]

variable {p}

/-- What holds of the last part along its edge holds along the whole edge. -/
theorem endsWith_of_last (h : kind.lastPart = some e) (he : e.kind.endsWith p = true) :
    kind.endsWith p = true := by
  rw [endsWith_of_lastPart p h, he, Bool.or_true]

theorem endsWith_self (h : p kind = true) : kind.endsWith p = true := by
  rw [endsWith, h, Bool.true_or]

theorem mem_children_of_lastPart (h : kind.lastPart = some e) : e ∈ kind.children := by
  cases kind with
  | vars vs =>
    obtain ⟨v, hv, hinit⟩ := Option.bind_eq_some_iff.mp h
    exact List.mem_filterMap.mpr ⟨v, List.mem_of_getLast? hv, hinit⟩
  | function kind func => exact List.mem_append_right _ (Option.mem_toList.mpr h)
  | unary op after e =>
    cases after with
    | true => cases h
    | false =>
      cases h
      exact List.mem_singleton_self _
  | loop test body first =>
    cases first with
    | true =>
      cases h
      simp [children]
    | false => cases h
  | cond test yes no => cases no <;> cases h <;> simp [children]
  | ret value => exact Option.mem_toList.mpr h
  | cast e type =>
    cases type with
    | none =>
      cases h
      exact List.mem_singleton_self _
    | some t => cases h
  | annotated entry e =>
    cases h
    exact List.mem_append_right _ (List.mem_singleton_self _)
  | _ => first | (cases h; simp [children]) | cases h

theorem endsWith_mono {q : ExprKind → Bool} (hpq : ∀ kind, p kind = true → q kind = true)
    (h : kind.endsWith p = true) : kind.endsWith q = true := by
  have hall : ∀ e : Expr, e.kind.endsWith p = true → e.kind.endsWith q = true := by
    intro e
    induction e using Expr.induction_children with
    | h e ih =>
      intro h
      cases hlast : e.kind.lastPart with
      | none =>
        rw [endsWith_of_noLast _ hlast] at h ⊢
        exact hpq _ h
      | some last =>
        rw [endsWith_of_lastPart _ hlast, Bool.or_eq_true] at h ⊢
        exact h.imp (hpq _) (ih last (mem_children_of_lastPart hlast))
  exact hall ⟨kind, .null⟩ h

theorem open_of_elseless {kind : ExprKind} (h : kind.endsWith isElseless = true) :
    kind.endsWith isGreedy = true := by
  refine endsWith_mono (fun kind h => ?_) h
  unfold isElseless at h
  split at h
  · rfl
  · cases h

end ExprKind

end

end HaxeMacro
