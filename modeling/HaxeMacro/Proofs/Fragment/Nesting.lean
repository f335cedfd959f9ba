import HaxeMacro.Proofs.Fragment.Revision

/-! # Nested spans

The pieces of an expression are its direct sub-expressions and the metadata entry it carries; those
of an entry are its arguments. The spans of a piece are nested if its own pieces stand inside it,
one after the other, and are nested in their turn. Then every expression in it stands inside it.
-/

namespace HaxeMacro

namespace Position

/-! ## Spans one after the other -/

/-- The span lies inside `outer`, in the same file. -/
structure Within (p outer : Position) : Prop where
  file : p.file = outer.file
  min : outer.min ≤ p.min
  max : p.max ≤ outer.max

theorem Within.refl (p : Position) : p.Within p := ⟨rfl, UInt32.le_refl _, UInt32.le_refl _⟩

theorem Within.trans {p q r : Position} (h : p.Within q) (h' : q.Within r) : p.Within r :=
  ⟨h.file.trans h'.file, UInt32.le_trans h'.min h.min, UInt32.le_trans h.max h'.max⟩

/-- The spans stand between the offsets `a` and `b`, each at or after the end of the one before. -/
def Spread (a : UInt32) : List Position → (b : UInt32) → Prop
  | [], b => a ≤ b
  | p :: ps, b => a ≤ p.min ∧ p.min ≤ p.max ∧ Spread p.max ps b

namespace Spread

variable {a b c : UInt32} {ps qs : List Position}

theorem le (h : Spread a ps b) : a ≤ b := by
  induction ps generalizing a with
  | nil => exact h
  | cons p ps ih =>
    obtain ⟨hmin, hp, hrest⟩ := h
    exact UInt32.le_trans hmin (UInt32.le_trans hp (ih hrest))

theorem of_le (hab : a ≤ b) (h : Spread b ps c) : Spread a ps c := by
  cases ps with
  | nil => exact UInt32.le_trans hab h
  | cons p ps => exact ⟨UInt32.le_trans hab h.1, h.2⟩

theorem append (h : Spread a ps b) (h' : Spread b qs c) : Spread a (ps ++ qs) c := by
  induction ps generalizing a with
  | nil => exact h'.of_le h
  | cons p ps ih => exact ⟨h.1, h.2.1, ih h.2.2⟩

theorem of_mem (h : Spread a ps b) {p : Position} (hp : p ∈ ps) :
    a ≤ p.min ∧ p.min ≤ p.max ∧ p.max ≤ b := by
  induction ps generalizing a with
  | nil => cases hp
  | cons q qs ih =>
    obtain ⟨hmin, hq, hrest⟩ := h
    rcases List.mem_cons.mp hp with rfl | hp
    · exact ⟨hmin, hq, hrest.le⟩
    · obtain ⟨hp, hspan, hmax⟩ := ih hrest hp
      exact ⟨UInt32.le_trans (UInt32.le_trans hmin hq) hp, hspan, hmax⟩

theorem last {q : Position} (h : Spread a (ps ++ [q]) b) :
    Spread a (ps ++ [q]) q.max ∧ a ≤ q.min ∧ q.min ≤ q.max ∧ q.max ≤ b := by
  induction ps generalizing a with
  | nil => exact ⟨⟨h.1, h.2.1, UInt32.le_refl _⟩, h⟩
  | cons p ps ih =>
    obtain ⟨hmin, hp, hrest⟩ := h
    obtain ⟨hspread, hq, hle⟩ := ih hrest
    exact ⟨⟨hmin, hp, hspread⟩, UInt32.le_trans (UInt32.le_trans hmin hp) hq, hle⟩

theorem union {p q : Position} (h : Spread a (p :: (ps ++ [q])) b) (hp : p.isNull = false)
    (hq : q.isNull = false) :
    Spread a [p.union q] b ∧ Spread (p.union q).min (p :: (ps ++ [q])) (p.union q).max ∧
      (p.union q).file = p.file := by
  obtain ⟨ha, hpp, hrest⟩ := h
  obtain ⟨hspread, hpq, hqq, hb⟩ := hrest.last
  have hmin : least p.min q.min = p.min := if_pos (UInt32.le_trans hpp hpq)
  have hmax : most p.max q.max = q.max := if_pos (UInt32.le_trans hpq hqq)
  rw [union_of_not_isNull hp hq, hmin, hmax]
  have hle : p.min ≤ q.max := UInt32.le_trans hpp (UInt32.le_trans hpq hqq)
  exact ⟨⟨ha, hle, hb⟩, ⟨UInt32.le_refl _, hpp, hspread⟩, rfl⟩

end Spread

end Position

open Position

/-! ## Pieces -/

/-- What has a span inside the span of an expression. -/
inductive Piece where
  | expr (e : Expr)
  | entry (m : Metadata)

def ExprKind.pieces : ExprKind → List Piece
  | .annotated entry e => [.entry entry, .expr e]
  | .loop test body false => [.expr body, .expr test]
  | kind => kind.children.map .expr

namespace Piece

def pos : Piece → Position
  | expr e => e.pos
  | entry m => m.pos

def inside : Piece → List Piece
  | expr e => e.kind.pieces
  | entry m => m.args.map .expr

/-- The spans of the piece and of all in it stand in `file`; each holds those of its own pieces, one
after the other. -/
inductive Nested (file : UInt32) : Piece → Prop
  | mk {p : Piece} (here : p.pos.file = file)
    (spread : Spread p.pos.min (p.inside.map pos) p.pos.max)
    (inside : ∀ q ∈ p.inside, Nested file q) : Nested file p

namespace Nested

variable {file : UInt32} {p q : Piece}

theorem file_eq (h : p.Nested file) : p.pos.file = file := by
  cases h with
  | mk here => exact here

theorem of_inside (h : p.Nested file) (hq : q ∈ p.inside) : q.Nested file := by
  cases h with
  | mk _ _ inside => exact inside q hq

theorem le (h : p.Nested file) : p.pos.min ≤ p.pos.max := by
  cases h with
  | mk _ spread _ => exact spread.le

theorem within (h : p.Nested file) (hq : q ∈ p.inside) : q.pos.Within p.pos := by
  have hfile := (h.of_inside hq).file_eq.trans h.file_eq.symm
  cases h with
  | mk _ spread _ =>
    obtain ⟨hmin, -, hmax⟩ := spread.of_mem (List.mem_map_of_mem hq)
    exact ⟨hfile, hmin, hmax⟩

end Nested

end Piece

/-! ## Sub-expressions -/

theorem ExprKind.piece_of_child {kind : ExprKind} {child : Expr} (h : child ∈ kind.children) :
    .expr child ∈ kind.pieces ∨ ∃ entry, .entry entry ∈ kind.pieces ∧ child ∈ entry.args := by
  have hmap : Piece.expr child ∈ kind.children.map Piece.expr := List.mem_map_of_mem h
  cases kind with
  | annotated entry e =>
    rcases List.mem_append.mp h with hargs | hinner
    · exact .inr ⟨entry, List.mem_cons_self, hargs⟩
    · rw [List.mem_singleton.mp hinner]
      exact .inl (by simp [pieces])
  | loop test body first =>
    cases first with
    | true => exact .inl hmap
    | false =>
      rcases List.mem_cons.mp h with rfl | hbody
      · exact .inl (by simp [pieces])
      · exact .inl (by simp [pieces, List.mem_singleton.mp hbody])
  | _ => exact .inl hmap

theorem Piece.Nested.child {file : UInt32} {e child : Expr} (h : (Piece.expr e).Nested file)
    (hchild : child ∈ e.children) :
    (Piece.expr child).Nested file ∧ child.pos.Within e.pos := by
  rcases ExprKind.piece_of_child hchild with hpiece | ⟨entry, hentry, hargs⟩
  · exact ⟨h.of_inside hpiece, h.within hpiece⟩
  · have hinside : Piece.expr child ∈ (Piece.entry entry).inside := List.mem_map_of_mem hargs
    have hnested := h.of_inside hentry
    exact ⟨hnested.of_inside hinside, (hnested.within hinside).trans (h.within hentry)⟩

/-- Every expression inside a nested expression is nested, and stands inside it. -/
theorem Piece.Nested.node {file : UInt32} {e node : Expr} (h : (Piece.expr e).Nested file)
    (hnode : node ∈ e.nodes) : (Piece.expr node).Nested file ∧ node.pos.Within e.pos := by
  refine Expr.forall_nodes (P := fun node => (Piece.expr node).Nested file ∧
    node.pos.Within e.pos) (fun node hnode child hchild => ?_) ⟨h, .refl e.pos⟩ node hnode
  obtain ⟨hnested, hwithin⟩ := hnode.1.child hchild
  exact ⟨hnested, hwithin.trans hnode.2⟩

/-! ## Metadata -/

/-- The metadata entries that an expression carries: its own, and those of its variables, of its
parameters and of its type parameters. -/
def Expr.entries (e : Expr) : List Metadata :=
  match e.kind with
  | .annotated entry _ => [entry]
  | .vars vs => vs.flatMap (·.annotations)
  | .function _ f => f.params.flatMap (·.annotations) ++ f.typeParams.flatMap (·.annotations)
  | _ => []

theorem Expr.Plain.node {e node : Expr} (h : e.Plain) (hnode : node ∈ e.nodes) : node.Plain :=
  Expr.forall_nodes (fun e he child hchild => by
    cases he with
    | mk _ children => exact children child hchild) h node hnode

theorem Expr.Plain.piece_of_entry {e : Expr} (h : e.Plain) {entry : Metadata}
    (hentry : entry ∈ e.entries) : .entry entry ∈ e.kind.pieces := by
  cases h with
  | @mk kind pos htypes =>
    cases kind with
    | annotated own inner =>
      rw [List.mem_singleton.mp hentry]
      exact List.mem_cons_self
    | vars vs =>
      obtain ⟨v, hv, hmem⟩ := List.mem_flatMap.mp hentry
      rw [(htypes v hv).annotations] at hmem
      cases hmem
    | function kind func =>
      obtain ⟨hparams, -, htypeParams⟩ := htypes
      rcases List.mem_append.mp hentry with hmem | hmem
      · obtain ⟨p, hp, hmem⟩ := List.mem_flatMap.mp hmem
        rw [(hparams p hp).annotations] at hmem
        cases hmem
      · rw [htypeParams] at hmem
        cases hmem
    | _ => cases hentry

end HaxeMacro
