import RectLayout.Clause.Parser
import RectLayout.Solve.Allocation
import RectLayout.Solve.Config

/-!
# Compilation

`compile` turns the active part of a design into a problem. Its rows say, in this order:

* validity: every box has at least the least extent of the settings;
* the clauses of the constraints of the active cells;
* default sizes, if wanted: polygons that no constraint names have a least size and no negative corner;
* containment: the objects of a cell lie inside its box;
* instance sizes: an instance has the width and height of its template.

A row in which no unknown is left is decided at once: it is left out, or its label is listed as infeasible.
-/

namespace RectLayout

structure Compiled (α : Type) where
  problem : Problem α
  /-- The labels of the rows without unknowns that do not hold. -/
  infeasible : List String
  deriving DecidableEq, Repr

namespace Compiled

variable {α : Type} [Scalar α]

/-! ## Rows -/

/-- The row of a sum of multiples of operands. Fixed operands go into the constant. -/
def rowOf (parts : List (α × Operand α)) (constant : α) (label : String) : Row α :=
  Row.ofTerms
    (parts.filterMap fun (c, o) => match o with | .unknown i => some (i, c) | .fixed _ => none)
    (parts.foldl (fun s (c, o) => match o with | .unknown _ => s | .fixed v => s + c * v) constant)
    label

/-- The row that says that `hi` is at least `least` above `lo`. -/
def extentRow (lo hi : Nat) (least : α) (label : String) : RowKind × Row α :=
  (.inequality, .ofTerms [(hi, 1), (lo, -1)] (-least) label)

/-- Every box has positive extents. -/
def validity (d : Design α) (a : Allocation) (config : SolveConfig α) : List (RowKind × Row α) :=
  a.bases.flatMap fun (n, b) =>
    [extentRow b (b + 2) config.epsilon s!"validity: width of '{d.name n}'",
      extentRow (b + 1) (b + 3) config.epsilon s!"validity: height of '{d.name n}'"]

/-- Polygons that no constraint names have a least size and no negative corner. -/
def defaultSizes (d : Design α) (a : Allocation) (config : SolveConfig α) (mentioned : List Node) :
    List (RowKind × Row α) :=
  a.bases.flatMap fun (n, b) =>
    match n with
    | .polygon _ =>
      if mentioned.contains n then []
      else
        let name := d.name n
        let least := config.defaultMinSize
        [(.inequality, .ofTerms [(b, 1)] 0 s!"default size: '{name}' x1 >= 0"),
          (.inequality, .ofTerms [(b + 1, 1)] 0 s!"default size: '{name}' y1 >= 0"),
          extentRow b (b + 2) least (s!"default size: '{name}' width >= " ++ Scalar.text least),
          extentRow (b + 1) (b + 3) least (s!"default size: '{name}' height >= " ++ Scalar.text least)]
    | _ => []

/-- The objects of a cell lie inside its box. -/
def containment (d : Design α) (a : Allocation) (c : CellId) : List (RowKind × Row α) :=
  match a.operands? d (.cell c) with
  | none => []
  | some outer =>
    (d.children c).flatMap fun n =>
      match a.operands? d n with
      | none => []
      | some inner =>
        let label := s!"containment: '{d.name n}' inside '{d.name (.cell c)}'"
        [(inner.x1, outer.x1), (inner.y1, outer.y1), (outer.x2, inner.x2), (outer.y2, inner.y2)].map fun (hi, lo) =>
          (.inequality, rowOf [(1, hi), (-1, lo)] 0 label)

/-- The coordinates that an instance takes its size from: those of its template if that is solved for, or else the box
of the template's content. -/
def templateOperands? (d : Design α) (a : Allocation) (template : CellId) : Option (Box (Operand α)) :=
  match a.base? (.cell template) with
  | some base => some (Allocation.unknowns base)
  | none => (d.contentBox? template).map (Box.map .fixed)

/-- An instance has the width and height of its template. -/
def instanceSizes (d : Design α) (a : Allocation) : List (RowKind × Row α) :=
  a.nodes.flatMap fun n =>
    match n with
    | .inst i =>
      match d.instance? i, a.operands? d n with
      | some inst, some own =>
        match templateOperands? d a inst.template with
        | none => []
        | some t =>
          let label (extent : String) :=
            s!"instance size: {extent} of '{inst.name}' matches '{d.name (.cell inst.template)}'"
          [(.equality, rowOf [(1, own.x2), (-1, own.x1), (-1, t.x2), (1, t.x1)] 0 (label "width")),
            (.equality, rowOf [(1, own.y2), (-1, own.y1), (-1, t.y2), (1, t.y1)] 0 (label "height"))]
      | _, _ => []
    | _ => []

/-! ## Constraints -/

/-- The row of a clause about boxes with the given coordinates. -/
def clauseRow (subject : Box (Operand α)) (object : Option (Box (Operand α))) (label : String) (c : Clause α) :
    RowKind × Row α :=
  let (kind, e) := match c.relation with
    | .equal e => (RowKind.equality, e)
    | .nonNegative e => (.inequality, e)
  let constant := Scalar.sum ((e.terms.filter fun t => t.coord.isNone).map Term.coefficient)
  let parts := e.terms.filterMap fun t => do
    let coord ← t.coord
    let box ← match coord.role with
      | .subject => some subject
      | .object => object
    return (t.coefficient, box.get coord.axis coord.corner)
  (kind, rowOf parts constant label)

/-- The coordinates of a node that a clause speaks of. -/
def resolve (d : Design α) (a : Allocation) (clause : String) (n : Node) : Except LayoutError (Box (Operand α)) :=
  match a.operands? d n with
  | some box => .ok box
  | none => .error (.unboundReference (d.name n) clause)

/-- The rows of one constraint of a cell. -/
def constraintRows (d : Design α) (a : Allocation) (cellName : String) (k : Constraint) :
    Except LayoutError (List (RowKind × Row α)) := do
  let clauses ← (Clause.parseAll k.clause k.object.isSome).mapError .clause
  let subject ← resolve d a k.clause k.subject
  let object ← k.object.mapM (resolve d a k.clause)
  let participants := match k.object with
    | some o => s!"{d.name k.subject}, {d.name o}"
    | none => d.name k.subject
  return clauses.map fun c => clauseRow subject object s!"{cellName}: '{c.text}' ({participants})" c

/-- The constraints of the active cells, each with the name of its cell. -/
def activeConstraints (d : Design α) (a : Allocation) : List (String × Constraint) :=
  a.cells.flatMap fun c =>
    match d.cell? c with
    | some cell => cell.constraints.map (cell.name, ·)
    | none => []

/-- The nodes that the active constraints name. -/
def mentioned (d : Design α) (a : Allocation) : List Node :=
  (activeConstraints d a).flatMap fun (_, k) => k.subject :: k.object.toList

/-! ## Problems -/

/-- A row without unknowns does not hold within the tolerance. -/
def fails (tolerance : α) : RowKind × Row α → Bool
  | (.equality, r) => tolerance < Scalar.abs r.constant
  | (.inequality, r) => r.constant < -tolerance

/-- The point from which the optimizer starts: boxes of the default size along a diagonal. -/
def initialPoint (a : Allocation) (config : SolveConfig α) : Array α :=
  ((List.range a.nodes.length).flatMap fun k =>
    let near := config.stagger * Scalar.ofNat k
    let far := near + config.defaultMinSize
    [near, near, far, far]).toArray

/-- All rows of a design, in order. -/
def rows (d : Design α) (a : Allocation) (config : SolveConfig α) : Except LayoutError (List (RowKind × Row α)) := do
  let clauses ← (activeConstraints d a).mapM fun (cellName, k) => constraintRows d a cellName k
  return validity d a config ++ clauses.flatten ++
    (if config.defaultSizing then defaultSizes d a config (mentioned d a) else []) ++
    a.cells.flatMap (containment d a) ++ instanceSizes d a

/-- The problem with the given rows. -/
def ofRows (a : Allocation) (config : SolveConfig α) (rows : List (RowKind × Row α)) : Compiled α :=
  let (constant, undecided) := rows.partition fun (_, r) => r.isConstant
  let (cells, objects) := a.bases.partition fun (n, _) => match n with | .cell _ => true | _ => false
  { problem :=
      { numVars := a.numVars
        equalities := (undecided.filter fun r => r.1 == .equality).map Prod.snd
        inequalities := (undecided.filter fun r => r.1 == .inequality).map Prod.snd
        boxes := objects.map Prod.snd
        containers := cells.map Prod.snd
        initial := initialPoint a config }
    infeasible := (constant.filter (fails config.correction.tolerance)).map fun (_, r) => r.label }

end Compiled

/-- The problem of the active part of a design. -/
def compile {α : Type} [Scalar α] (d : Design α) (a : Allocation) (config : SolveConfig α) :
    Except LayoutError (Compiled α) :=
  (Compiled.rows d a config).map (Compiled.ofRows a config)

end RectLayout
