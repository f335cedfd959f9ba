import HaxeMacro.Proofs.Fragment.Children
import HaxeMacro.Proofs.Fragment.Revision

/-! # The positions in a fragment

A position in an expression is the position of an expression that the visits come by, or it stands
in the form of such an expression: in a type, in the metadata of a variable or a parameter, or at
the metadata entry of an annotated expression. Only the former are filled.
-/

namespace HaxeMacro

mutual

/-- Every position in the expression. -/
def Expr.positions : Expr → List Position
  | ⟨kind, pos⟩ => pos :: kind.positions

def ExprKind.positions : ExprKind → List Position
  | .const _ | .brk | .cont => []
  | .index a b | .binary _ a b | .forIn a b | .loop a b _ => a.positions ++ b.positions
  | .field e _ | .paren e | .unary _ _ e | .untyped e | .throw e => e.positions
  | .object fields => positionsOfObjectFields fields
  | .array items | .block items => positionsOfExprs items
  | .call callee args => callee.positions ++ positionsOfExprs args
  | .new path args => path.positions ++ positionsOfExprs args
  | .vars vs => positionsOfVars vs
  | .function _ func => func.positions
  | .cond test yes no => test.positions ++ (yes.positions ++ positionsOfOption no)
  | .ret value => positionsOfOption value
  | .cast e type => e.positions ++ positionsOfOptionType type
  | .ternary test yes no => test.positions ++ (yes.positions ++ no.positions)
  | .checkType e type => e.positions ++ type.positions
  | .annotated entry e => entry.positions ++ e.positions

def positionsOfExprs : List Expr → List Position
  | [] => []
  | e :: es => e.positions ++ positionsOfExprs es

def positionsOfOption : Option Expr → List Position
  | none => []
  | some e => e.positions

def positionsOfObjectFields : List ObjectField → List Position
  | [] => []
  | ⟨_, value, _⟩ :: fields => value.positions ++ positionsOfObjectFields fields

def Var.positions : Var → List Position
  | ⟨_, type, init, _, _, annotations⟩ =>
    positionsOfOptionType type ++ (positionsOfOption init ++ positionsOfMetadata annotations)

def positionsOfVars : List Var → List Position
  | [] => []
  | v :: vs => v.positions ++ positionsOfVars vs

def Param.positions : Param → List Position
  | ⟨_, _, type, default, annotations⟩ =>
    positionsOfOptionType type ++ (positionsOfOption default ++ positionsOfMetadata annotations)

def positionsOfParams : List Param → List Position
  | [] => []
  | p :: ps => p.positions ++ positionsOfParams ps

def FunctionDef.positions : FunctionDef → List Position
  | ⟨params, ret, body, typeParams⟩ =>
    positionsOfParams params ++ (positionsOfOptionType ret ++
      (positionsOfOption body ++ positionsOfTypeParams typeParams))

def TypePath.positions : TypePath → List Position
  | ⟨_, _, args, _⟩ => positionsOfTypeArgs args

def TypeArg.positions : TypeArg → List Position
  | .type t => t.positions
  | .expr e => e.positions

def positionsOfTypeArgs : List TypeArg → List Position
  | [] => []
  | a :: as => a.positions ++ positionsOfTypeArgs as

def ComplexType.positions : ComplexType → List Position
  | .path p => p.positions
  | .function args ret => positionsOfTypes args ++ ret.positions
  | .anonymous fields => positionsOfFields fields
  | .paren t | .optional t | .named _ t => t.positions

def positionsOfTypes : List ComplexType → List Position
  | [] => []
  | t :: ts => t.positions ++ positionsOfTypes ts

def positionsOfOptionType : Option ComplexType → List Position
  | none => []
  | some t => t.positions

def TypeParamDecl.positions : TypeParamDecl → List Position
  | ⟨_, constraints, params, annotations⟩ =>
    positionsOfTypes constraints ++ (positionsOfTypeParams params ++
      positionsOfMetadata annotations)

def positionsOfTypeParams : List TypeParamDecl → List Position
  | [] => []
  | t :: ts => t.positions ++ positionsOfTypeParams ts

def Metadata.positions : Metadata → List Position
  | ⟨_, args, pos⟩ => pos :: positionsOfExprs args

def positionsOfMetadata : List Metadata → List Position
  | [] => []
  | m :: ms => m.positions ++ positionsOfMetadata ms

def FieldKind.positions : FieldKind → List Position
  | .var type init | .property _ _ type init =>
    positionsOfOptionType type ++ positionsOfOption init
  | .method func => func.positions

def Field.positions : Field → List Position
  | ⟨_, _, _, kind, pos, annotations⟩ =>
    pos :: (kind.positions ++ positionsOfMetadata annotations)

def positionsOfFields : List Field → List Position
  | [] => []
  | field :: fields => field.positions ++ positionsOfFields fields

end

/-! ## Direct parts -/

/-- The positions of a variable apart from its initial value. -/
def Var.ownPositions (v : Var) : List Position :=
  positionsOfOptionType v.type ++ positionsOfMetadata v.annotations

/-- The positions of a parameter apart from its default value. -/
def Param.ownPositions (p : Param) : List Position :=
  positionsOfOptionType p.type ++ positionsOfMetadata p.annotations

/-- The positions of a function apart from its default values and its body. -/
def FunctionDef.ownPositions (func : FunctionDef) : List Position :=
  func.params.flatMap Param.ownPositions ++
    (positionsOfOptionType func.ret ++ positionsOfTypeParams func.typeParams)

/-- The positions of a form that stand in no direct sub-expression. -/
def ExprKind.ownPositions : ExprKind → List Position
  | .new path _ => path.positions
  | .vars vs => vs.flatMap Var.ownPositions
  | .function _ func => func.ownPositions
  | .cast _ type => positionsOfOptionType type
  | .checkType _ type => type.positions
  | .annotated entry _ => [entry.pos]
  | _ => []

/-- The positions that stand in no visited expression but in the form of one. -/
def Expr.hiddenPositions (e : Expr) : List Position := e.nodes.flatMap (·.kind.ownPositions)

theorem positionsOfExprs_eq_flatMap (es : List Expr) :
    positionsOfExprs es = es.flatMap (·.positions) :=
  eq_flatMap_of_cons rfl (fun _ _ => rfl) es

theorem positionsOfOption_eq_flatMap (e? : Option Expr) :
    positionsOfOption e? = e?.toList.flatMap (·.positions) := by
  cases e? with
  | none => rfl
  | some e => exact (List.append_nil _).symm

theorem positionsOfObjectFields_eq_flatMap (fields : List ObjectField) :
    positionsOfObjectFields fields = fields.flatMap (·.value.positions) := by
  refine eq_flatMap_of_cons rfl ?_ fields
  rintro ⟨name, value, quoted⟩ fields
  rfl

theorem positionsOfVars_eq_flatMap (vs : List Var) :
    positionsOfVars vs = vs.flatMap (·.positions) :=
  eq_flatMap_of_cons rfl (fun _ _ => rfl) vs

theorem positionsOfParams_eq_flatMap (ps : List Param) :
    positionsOfParams ps = ps.flatMap (·.positions) :=
  eq_flatMap_of_cons rfl (fun _ _ => rfl) ps

section
variable {p : Position}

theorem Var.mem_positions_iff {v : Var} :
    p ∈ v.positions ↔ p ∈ v.ownPositions ∨ ∃ e ∈ v.init, p ∈ e.positions := by
  obtain ⟨name, type, init, isFinal, isStatic, annotations⟩ := v
  simp only [positions, ownPositions, positionsOfOption_eq_flatMap, List.mem_append,
    List.mem_flatMap, Option.mem_toList, Option.mem_def]
  exact or_assoc.symm.trans or_right_comm

theorem Param.mem_positions_iff {param : Param} :
    p ∈ param.positions ↔ p ∈ param.ownPositions ∨ ∃ e ∈ param.default, p ∈ e.positions := by
  obtain ⟨name, optional, type, default, annotations⟩ := param
  simp only [positions, ownPositions, positionsOfOption_eq_flatMap, List.mem_append,
    List.mem_flatMap, Option.mem_toList, Option.mem_def]
  exact or_assoc.symm.trans or_right_comm

theorem exists_mem_part {α : Type} (part : α → Option Expr) (own : α → List Position)
    (as : List α) :
    (∃ a ∈ as, p ∈ own a ∨ ∃ e ∈ part a, p ∈ e.positions) ↔
      p ∈ as.flatMap own ∨ ∃ e ∈ as.filterMap part, p ∈ e.positions := by
  simp only [List.mem_flatMap, List.mem_filterMap]
  constructor
  · rintro ⟨a, ha, hown | ⟨e, he, hp⟩⟩
    · exact Or.inl ⟨a, ha, hown⟩
    · exact Or.inr ⟨e, ⟨a, ha, he⟩, hp⟩
  · rintro (⟨a, ha, hown⟩ | ⟨e, ⟨a, ha, he⟩, hp⟩)
    · exact ⟨a, ha, Or.inl hown⟩
    · exact ⟨a, ha, Or.inr ⟨e, he, hp⟩⟩

theorem FunctionDef.mem_positions_iff {func : FunctionDef} :
    p ∈ func.positions ↔ p ∈ func.ownPositions ∨ ∃ e ∈ func.children, p ∈ e.positions := by
  obtain ⟨params, ret, body, typeParams⟩ := func
  have hparams := exists_mem_part (p := p) Param.default Param.ownPositions params
  simp only [← Param.mem_positions_iff, List.mem_flatMap] at hparams
  simp only [positions, ownPositions, children, positionsOfParams_eq_flatMap,
    positionsOfOption_eq_flatMap, List.mem_append, List.mem_flatMap, or_and_right, exists_or,
    hparams]
  simp only [or_assoc, or_comm, or_left_comm]

/-- A position in a form stands in a direct sub-expression or is one of its own. -/
theorem ExprKind.mem_positions_iff {kind : ExprKind} :
    p ∈ kind.positions ↔ p ∈ kind.ownPositions ∨ ∃ e ∈ kind.children, p ∈ e.positions := by
  cases kind with
  | vars vs =>
    have hvars := exists_mem_part (p := p) Var.init Var.ownPositions vs
    simp only [← Var.mem_positions_iff] at hvars
    rw [positions, positionsOfVars_eq_flatMap, List.mem_flatMap, hvars]
    rfl
  | function kind func => exact FunctionDef.mem_positions_iff
  | cast | checkType =>
    simp only [positions, ownPositions, children, List.mem_append, List.exists_mem_cons_iff,
      List.not_mem_nil, false_and, exists_false, or_false]
    exact or_comm
  | annotated entry e =>
    obtain ⟨name, args, pos⟩ := entry
    simp [positions, Metadata.positions, ownPositions, children, positionsOfExprs_eq_flatMap]
  | _ => simp [positions, ownPositions, children, positionsOfExprs_eq_flatMap,
    positionsOfOption_eq_flatMap, positionsOfObjectFields_eq_flatMap]

end

theorem Position.isNull_orElse {pos : Position} (hpos : pos.isNull = false) (p : Position) :
    (p.orElse pos).isNull = false := by
  unfold orElse
  split
  · exact hpos
  · rename_i hp
    exact Bool.eq_false_iff.mpr hp

theorem Expr.hiddenPositions_mk (kind : ExprKind) (pos : Position) :
    hiddenPositions ⟨kind, pos⟩ =
      kind.ownPositions ++ kind.children.flatMap hiddenPositions := by
  rw [hiddenPositions, nodes_eq, List.flatMap_cons, List.flatMap_assoc]
  rfl

theorem Expr.mem_positions_iff {e : Expr} {p : Position} :
    p ∈ e.positions ↔ p ∈ e.nodes.map (·.pos) ∨ p ∈ e.hiddenPositions := by
  induction e using Expr.induction_children with
  | h e ih =>
    obtain ⟨kind, pos⟩ := e
    have hchildren : (∃ e ∈ kind.children, p ∈ e.positions) ↔
        p ∈ (kind.children.flatMap nodes).map (·.pos) ∨
          p ∈ kind.children.flatMap hiddenPositions := by
      simp only [List.map_flatMap, List.mem_flatMap, ← exists_or, ← and_or_left]
      exact exists_congr fun child => and_congr_right fun hchild => ih child hchild
    have hnodes : Expr.nodes ⟨kind, pos⟩ = ⟨kind, pos⟩ :: kind.children.flatMap nodes :=
      nodes_eq _
    rw [hiddenPositions_mk, hnodes, positions, List.mem_cons, ExprKind.mem_positions_iff, hchildren,
      List.map_cons, List.mem_cons, List.mem_append]
    simp only [or_assoc, or_left_comm]

/-! ## Filling -/

theorem FunctionDef.ownPositions_mapChildren (g : Expr → Expr) (func : FunctionDef) :
    (func.mapChildren g).ownPositions = func.ownPositions := by
  rw [ownPositions, mapChildren, List.flatMap_map]
  rfl

theorem ExprKind.ownPositions_mapChildren (g : Expr → Expr) (kind : ExprKind) :
    (kind.mapChildren g).ownPositions = kind.ownPositions := by
  cases kind with
  | vars vs =>
    rw [mapChildren, ownPositions, List.flatMap_map]
    rfl
  | function kind func => exact func.ownPositions_mapChildren g
  | _ => rfl

namespace Expr

variable {pos : Position}

theorem fillPositions_mk (pos : Position) (kind : ExprKind) (place : Position) :
    fillPositions pos ⟨kind, place⟩ =
      ⟨kind.mapChildren (·.fillPositions pos), place.orElse pos⟩ := by
  simp only [fillPositions_eq_mapUp]
  rw [mapUp_eq]

theorem nodes_fillPositions (pos : Position) (e : Expr) :
    (e.fillPositions pos).nodes = e.nodes.map (·.fillPositions pos) := by
  induction e using Expr.induction_children with
  | h e ih =>
    obtain ⟨kind, place⟩ := e
    have hchildren : (kind.children.map (·.fillPositions pos)).flatMap nodes =
        (kind.children.flatMap nodes).map (·.fillPositions pos) := by
      rw [List.flatMap_map, List.map_flatMap]
      exact List.flatMap_congr ih
    rw [nodes_eq ⟨kind, place⟩, List.map_cons, fillPositions_mk, nodes_eq, children,
      ExprKind.children_mapChildren, hchildren]
    rfl

/-- Every expression inside takes the position for its own if it has none. -/
theorem map_pos_fillPositions (pos : Position) (e : Expr) :
    (e.fillPositions pos).nodes.map (·.pos) = e.nodes.map (·.pos.orElse pos) := by
  rw [nodes_fillPositions, List.map_map]
  refine List.map_congr_left fun node _ => ?_
  obtain ⟨kind, place⟩ := node
  rw [Function.comp_apply, fillPositions_mk]

theorem hiddenPositions_fillPositions (pos : Position) (e : Expr) :
    (e.fillPositions pos).hiddenPositions = e.hiddenPositions := by
  rw [hiddenPositions, nodes_fillPositions, List.flatMap_map]
  refine List.flatMap_congr fun node _ => ?_
  obtain ⟨kind, place⟩ := node
  rw [fillPositions_mk]
  exact kind.ownPositions_mapChildren _

theorem forall_positions_fillPositions (hpos : pos.isNull = false) {e : Expr} :
    (∀ p ∈ (e.fillPositions pos).positions, p.isNull = false) ↔
      ∀ p ∈ e.hiddenPositions, p.isNull = false := by
  have hvisited : ∀ p ∈ (e.fillPositions pos).nodes.map (·.pos), p.isNull = false := by
    rw [map_pos_fillPositions]
    intro p hp
    obtain ⟨node, -, rfl⟩ := List.mem_map.mp hp
    exact Position.isNull_orElse hpos _
  constructor
  · intro h p hp
    rw [← hiddenPositions_fillPositions pos] at hp
    exact h p (mem_positions_iff.mpr (Or.inr hp))
  · intro h p hp
    rcases mem_positions_iff.mp hp with hp | hp
    · exact hvisited p hp
    · rw [hiddenPositions_fillPositions] at hp
      exact h p hp

end Expr

section
variable {f : Position → Position} {g : Expr → Expr}

theorem map_eq_self_of_forall {ps : List Position} (h : ∀ p ∈ ps, f p = p) : ps.map f = ps :=
  (List.map_congr_left h).trans (List.map_id' ps)

theorem positionsOfExprs_map {es : List Expr}
    (h : ∀ e ∈ es, (g e).positions = e.positions.map f) :
    positionsOfExprs (es.map g) = (positionsOfExprs es).map f := by
  rw [positionsOfExprs_eq_flatMap, positionsOfExprs_eq_flatMap, List.flatMap_map,
    List.map_flatMap]
  exact List.flatMap_congr h

theorem positionsOfOption_map {e? : Option Expr}
    (h : ∀ e ∈ e?.toList, (g e).positions = e.positions.map f) :
    positionsOfOption (e?.map g) = (positionsOfOption e?).map f := by
  cases e? with
  | none => rfl
  | some e => exact h e List.mem_cons_self

theorem Var.positions_map {v : Var} (h : ∀ e ∈ v.init.toList, (g e).positions = e.positions.map f)
    (hown : ∀ p ∈ v.ownPositions, f p = p) :
    Var.positions { v with init := v.init.map g } = v.positions.map f := by
  obtain ⟨name, type, init, isFinal, isStatic, annotations⟩ := v
  obtain ⟨htype, hannotations⟩ := List.forall_mem_append.mp hown
  simp only [positions, List.map_append, positionsOfOption_map h, map_eq_self_of_forall htype,
    map_eq_self_of_forall hannotations]

theorem Param.positions_map {p : Param}
    (h : ∀ e ∈ p.default.toList, (g e).positions = e.positions.map f)
    (hown : ∀ q ∈ p.ownPositions, f q = q) :
    Param.positions { p with default := p.default.map g } = p.positions.map f := by
  obtain ⟨name, optional, type, default, annotations⟩ := p
  obtain ⟨htype, hannotations⟩ := List.forall_mem_append.mp hown
  simp only [positions, List.map_append, positionsOfOption_map h, map_eq_self_of_forall htype,
    map_eq_self_of_forall hannotations]

theorem FunctionDef.positions_mapChildren {func : FunctionDef}
    (h : ∀ e ∈ func.children, (g e).positions = e.positions.map f)
    (hown : ∀ p ∈ func.ownPositions, f p = p) :
    (func.mapChildren g).positions = func.positions.map f := by
  obtain ⟨params, ret, body, typeParams⟩ := func
  obtain ⟨hdefaults, hbody⟩ := List.forall_mem_append.mp h
  obtain ⟨hparams, hrest⟩ := List.forall_mem_append.mp hown
  obtain ⟨hret, htypeParams⟩ := List.forall_mem_append.mp hrest
  have hmap : (params.map fun p => { p with default := p.default.map g }).flatMap (·.positions) =
      (params.flatMap (·.positions)).map f := by
    rw [List.flatMap_map, List.map_flatMap]
    refine List.flatMap_congr fun p hp => Param.positions_map (fun e he => ?_) fun q hq => ?_
    · exact hdefaults e (List.mem_filterMap.mpr ⟨p, hp, Option.mem_toList.mp he⟩)
    · exact hparams q (List.mem_flatMap.mpr ⟨p, hp, hq⟩)
  simp only [mapChildren, positions, positionsOfParams_eq_flatMap, hmap, List.map_append,
    positionsOfOption_map hbody, map_eq_self_of_forall hret, map_eq_self_of_forall htypeParams]

theorem ExprKind.positions_mapChildren {kind : ExprKind}
    (h : ∀ e ∈ kind.children, (g e).positions = e.positions.map f)
    (hown : ∀ p ∈ kind.ownPositions, f p = p) :
    (kind.mapChildren g).positions = kind.positions.map f := by
  cases kind with
  | vars vs =>
    rw [mapChildren, positions, positions, positionsOfVars_eq_flatMap, positionsOfVars_eq_flatMap,
      List.flatMap_map, List.map_flatMap]
    refine List.flatMap_congr fun v hv => Var.positions_map (fun e he => ?_) fun p hp => ?_
    · exact h e (List.mem_filterMap.mpr ⟨v, hv, Option.mem_toList.mp he⟩)
    · exact hown p (List.mem_flatMap.mpr ⟨v, hv, hp⟩)
  | function kind func => exact FunctionDef.positions_mapChildren h hown
  | const | brk | cont => rfl
  | index a b | binary _ a b | forIn a b | loop a b =>
    obtain ⟨ha, hb, -⟩ := by simpa only [children, List.forall_mem_cons] using h
    simp only [mapChildren, positions, List.map_append, ha, hb]
  | field e | paren e | unary _ _ e | untyped e | throw e => exact h e List.mem_cons_self
  | cast e type =>
    have htype : (positionsOfOptionType type).map f = positionsOfOptionType type :=
      map_eq_self_of_forall hown
    simp only [mapChildren, positions, List.map_append, h e List.mem_cons_self, htype]
  | checkType e type =>
    have htype : type.positions.map f = type.positions := map_eq_self_of_forall hown
    simp only [mapChildren, positions, List.map_append, h e List.mem_cons_self, htype]
  | object fields =>
    rw [mapChildren, positions, positions, positionsOfObjectFields_eq_flatMap,
      positionsOfObjectFields_eq_flatMap, List.flatMap_map, List.map_flatMap]
    exact List.flatMap_congr fun field hf => h field.value (List.mem_map_of_mem hf)
  | array items | block items => exact positionsOfExprs_map h
  | call callee args =>
    obtain ⟨hcallee, hargs⟩ := List.forall_mem_cons.mp h
    simp only [mapChildren, positions, List.map_append, hcallee, positionsOfExprs_map hargs]
  | new path args =>
    have hpath : path.positions.map f = path.positions := map_eq_self_of_forall hown
    have hargs : positionsOfExprs (args.map g) = (positionsOfExprs args).map f :=
      positionsOfExprs_map h
    simp only [mapChildren, positions, List.map_append, hpath, hargs]
  | cond test yes no =>
    obtain ⟨htest, hyes, hno⟩ := by simpa only [children, List.forall_mem_cons] using h
    simp only [mapChildren, positions, List.map_append, htest, hyes, positionsOfOption_map hno]
  | ret value => exact positionsOfOption_map h
  | ternary test yes no =>
    obtain ⟨htest, hyes, hno, -⟩ := by simpa only [children, List.forall_mem_cons] using h
    simp only [mapChildren, positions, List.map_append, htest, hyes, hno]
  | annotated entry e =>
    obtain ⟨name, args, pos⟩ := entry
    obtain ⟨hargs, he⟩ := List.forall_mem_append.mp h
    simp only [mapChildren, positions, Metadata.positions, List.map_append, List.map_cons,
      positionsOfExprs_map hargs, he e List.mem_cons_self, hown pos List.mem_cons_self]

end

/-- Every position stands as it was or, where there was none, gives way to the one that is filled
in, exactly if none of those that the visits do not come by is null. -/
theorem Expr.positions_fillPositions_iff {pos : Position} (hpos : pos.isNull = false) (e : Expr) :
    (e.fillPositions pos).positions = e.positions.map (·.orElse pos) ↔
      ∀ p ∈ e.hiddenPositions, p.isNull = false := by
  constructor
  · intro h
    refine (forall_positions_fillPositions hpos).mp fun p hp => ?_
    rw [h] at hp
    obtain ⟨q, -, rfl⟩ := List.mem_map.mp hp
    exact Position.isNull_orElse hpos q
  · intro h
    induction e using Expr.induction_children with
    | h e ih =>
      obtain ⟨kind, place⟩ := e
      rw [hiddenPositions_mk] at h
      obtain ⟨hown, hchildren⟩ := List.forall_mem_append.mp h
      rw [fillPositions_mk, positions, positions, List.map_cons]
      refine congrArg _ (ExprKind.positions_mapChildren (fun child hchild => ?_) fun p hp => ?_)
      · exact ih child hchild fun p hp =>
          hchildren p (List.mem_flatMap.mpr ⟨child, hchild, hp⟩)
      · rw [Position.orElse, if_neg (Bool.eq_false_iff.mp (hown p hp))]

/-! ## What is not filled -/

section
variable {f : Position → Position} {g : Expr → Expr}

theorem relocateExprs_map {es : List Expr} (h : ∀ e ∈ es, (g e).relocate f = e.relocate f) :
    relocateExprs f (es.map g) = relocateExprs f es := by
  rw [relocateExprs_eq_map, relocateExprs_eq_map, List.map_map]
  exact List.map_congr_left h

theorem relocateOption_map {e? : Option Expr}
    (h : ∀ e ∈ e?.toList, (g e).relocate f = e.relocate f) :
    relocateOption f (e?.map g) = relocateOption f e? := by
  cases e? with
  | none => rfl
  | some e => exact congrArg some (h e List.mem_cons_self)

theorem FunctionDef.relocate_mapChildren {func : FunctionDef}
    (h : ∀ e ∈ func.children, (g e).relocate f = e.relocate f) :
    (func.mapChildren g).relocate f = func.relocate f := by
  obtain ⟨params, ret, body, typeParams⟩ := func
  obtain ⟨hdefaults, hbody⟩ := List.forall_mem_append.mp h
  have hparams : relocateParams f (params.map fun p => { p with default := p.default.map g }) =
      relocateParams f params := by
    rw [relocateParams_eq_map, relocateParams_eq_map, List.map_map]
    refine List.map_congr_left fun p hp => ?_
    have hdefault := relocateOption_map fun e he =>
      hdefaults e (List.mem_filterMap.mpr ⟨p, hp, Option.mem_toList.mp he⟩)
    obtain ⟨name, optional, type, default, annotations⟩ := p
    simp only [Function.comp_apply, Param.relocate, hdefault]
  simp only [mapChildren, relocate, hparams, relocateOption_map hbody]

theorem ExprKind.relocate_mapChildren {kind : ExprKind}
    (h : ∀ e ∈ kind.children, (g e).relocate f = e.relocate f) :
    (kind.mapChildren g).relocate f = kind.relocate f := by
  cases kind with
  | const | brk | cont => rfl
  | index a b | binary _ a b | forIn a b | loop a b =>
    obtain ⟨ha, hb, -⟩ := by simpa only [children, List.forall_mem_cons] using h
    simp only [mapChildren, relocate, ha, hb]
  | field e | paren e | unary _ _ e | untyped e | throw e | cast e | checkType e =>
    simp only [mapChildren, relocate, h e List.mem_cons_self]
  | object fields =>
    rw [mapChildren, relocate, relocate, relocateObjectFields_eq_map, relocateObjectFields_eq_map,
      List.map_map]
    refine congrArg ExprKind.object (List.map_congr_left fun field hf => ?_)
    have hvalue := h field.value (List.mem_map_of_mem hf)
    obtain ⟨name, value, quoted⟩ := field
    exact congrArg (ObjectField.mk name · quoted) hvalue
  | array items => exact congrArg ExprKind.array (relocateExprs_map h)
  | block items => exact congrArg ExprKind.block (relocateExprs_map h)
  | call callee args =>
    obtain ⟨hcallee, hargs⟩ := List.forall_mem_cons.mp h
    simp only [mapChildren, relocate, hcallee, relocateExprs_map hargs]
  | new path args =>
    have hargs : relocateExprs f (args.map g) = relocateExprs f args := relocateExprs_map h
    simp only [mapChildren, relocate, hargs]
  | vars vs =>
    rw [mapChildren, relocate, relocate, relocateVars_eq_map, relocateVars_eq_map, List.map_map]
    refine congrArg ExprKind.vars (List.map_congr_left fun v hv => ?_)
    have hinit := relocateOption_map fun e he =>
      h e (List.mem_filterMap.mpr ⟨v, hv, Option.mem_toList.mp he⟩)
    obtain ⟨name, type, init, isFinal, isStatic, annotations⟩ := v
    simp only [Function.comp_apply, Var.relocate, hinit]
  | function kind func =>
    exact congrArg (ExprKind.function kind) (FunctionDef.relocate_mapChildren h)
  | cond test yes no =>
    obtain ⟨htest, hyes, hno⟩ := by simpa only [children, List.forall_mem_cons] using h
    simp only [mapChildren, relocate, htest, hyes, relocateOption_map hno]
  | ret value => exact congrArg ExprKind.ret (relocateOption_map h)
  | ternary test yes no =>
    obtain ⟨htest, hyes, hno, -⟩ := by simpa only [children, List.forall_mem_cons] using h
    simp only [mapChildren, relocate, htest, hyes, hno]
  | annotated entry e =>
    obtain ⟨name, args, pos⟩ := entry
    obtain ⟨hargs, he⟩ := List.forall_mem_append.mp h
    simp only [mapChildren, relocate, Metadata.relocate, relocateExprs_map hargs,
      he e List.mem_cons_self]

end

theorem Expr.unplaced_fillPositions (pos : Position) (e : Expr) :
    (e.fillPositions pos).unplaced = e.unplaced := by
  induction e using Expr.induction_children with
  | h e ih =>
    obtain ⟨kind, place⟩ := e
    rw [fillPositions_mk, unplaced, unplaced, relocate, relocate,
      ExprKind.relocate_mapChildren ih]

end HaxeMacro
