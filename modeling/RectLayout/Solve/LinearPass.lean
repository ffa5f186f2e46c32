import RectLayout.LinearProgram.Solution
import RectLayout.LinearProgram.Tableau
import RectLayout.Solve.Optimizer

/-!
# The default optimizer

`minimize` solves each pass as a linear program: every row is a demand, and the wishes have costs. All extents prefer
to reach one grid unit, cells are pulled weakly, and the lower left corners are drawn to the initial point, earlier
boxes more than later ones, which settles ties.

Whether the rows can be satisfied is decided in exact numbers (`feasible`), and so is the point of a pass
(`exactPoint`). If a number of the problem is very large or very small, infinite or none, or if rows contradict each
other by no more than the slack, a pass is solved in the arithmetic of the scalars instead, since rounding then has its
say.
-/

namespace RectLayout

open LinearProgram

variable {α : Type} [Scalar α]

/-! ## Errors -/

/-- Why a pass has no point. -/
inductive PassError where
  /-- The first row that cannot be satisfied together with those before it. -/
  | unsatisfiable (label : String)
  /-- A row that could be brought closer to its demand without end. -/
  | unbounded (label : String)
  /-- An unknown that cannot be drawn to its place in the initial point. -/
  | unreachable
  /-- An unknown is the corner of two boxes. -/
  | anchoredTwice
  deriving DecidableEq, Repr

namespace PassError

def message : PassError → String
  | unsatisfiable label => s!"Unsatisfiable constraint: {label}"
  | unbounded label => s!"Internal solver error: Internal solver error for {label}: The objective is unbounded."
  | unreachable => "Internal solver error: Failed to suggest value: The solver entered an invalid state. " ++
      "If this occurs please report the issue. This variant specifies additional details as a string."
  | anchoredTwice => "Internal solver error: Failed to add edit variable: " ++
      "The specified variable is already marked as an edit variable in the solver."

/-- The error that a row with a label causes. -/
def ofRefusal (label : String) : Refusal → PassError
  | .contradiction => unsatisfiable label
  | .unbounded => unbounded label
  | .stuck => unreachable

end PassError

/-! ## Demands and wishes -/

/-- The cost of a unit of a weak, a medium and a strong wish. -/
def weak : Rat := 1

@[inherit_doc weak]
def medium : Rat := 1000

@[inherit_doc weak]
def strong : Rat := 1000000

/-- The tableau with the rows of a problem as demands. -/
def demandRows (p : Problem α) : Except PassError (Tableau α) :=
  Tableau.withoutMarks <$> p.rows.foldlM (fun t (kind, row) =>
    (t.demand (kind == .inequality) row.terms.toList row.constant).mapError (.ofRefusal row.label)) (.empty p.numVars)

/-- The tableau with the wishes for the extent between two unknowns: to be zero, and to be one grid unit at least. -/
def pullExtent (weight : α) (lo hi : Nat) (t : Tableau α) : Except PassError (Tableau α) := do
  let extent : List (Nat × α) := [(hi, 1), (lo, -1)]
  let t ← (t.wish weight extent 0).mapError (.ofRefusal "extent objective")
  (t.wishNonNegative (Scalar.ofRat strong) extent (-1)).mapError (.ofRefusal "extent grid unit")

/-- The tableau with the wishes for both extents of the box at `base`. -/
def pullBox (weights : α × α) (base : Nat) (t : Tableau α) : Except PassError (Tableau α) := do
  pullExtent weights.2 (base + 1) (base + 3) (← pullExtent weights.1 base (base + 2) t)

/-- The first unknowns of all boxes, in order. -/
def anchored (p : Problem α) : List Nat := (p.boxes ++ p.containers).mergeSort

/-- The unknowns that are drawn to the initial point, with the ranks of their boxes. -/
def anchors (p : Problem α) : List (Nat × Nat) := (anchored p).zipIdx.flatMap fun (b, n) => [(b, n), (b + 1, n)]

/-- No unknown is anchored twice. -/
def isAnchoredOnce (p : Problem α) : Bool := (anchors p).map Prod.fst |>.Nodup

/-- The tableau with all wishes of a problem. -/
def addWishes (p : Problem α) (weights : ExtentWeights α) (t : Tableau α) : Except PassError (Tableau α) := do
  let scaled (c : Rat) (w : α × α) : α × α := (Scalar.ofRat c * w.1, Scalar.ofRat c * w.2)
  let t ← (p.boxes.zip weights).foldlM (fun t (b, w) => pullBox (scaled medium w) b t) t
  let t ← p.containers.foldlM (fun t b => pullBox (scaled (2 * weak) (1, 1)) b t) t
  if isAnchoredOnce p then
    (anchors p).foldlM (fun t (slot, n) =>
      (t.wishValue (Scalar.ofRat weak / Scalar.ofNat (n + 1)) slot (valueAt p.initial slot)).mapError
        (.ofRefusal "anchor")) t
  else .error .anchoredTwice

/-- The point of a tableau. -/
def pointOf (p : Problem α) (t : Tableau α) : Array α := (Array.range p.numVars).map t.value

/-! ## Exact passes -/

/-- The number that a scalar stands for, zero if it stands for none. -/
def exactNumber (c : α) : Rat := (Scalar.toRat? c).getD 0

/-- A number whose rounding stays within the slack. -/
def isModest (c : α) : Bool :=
  match Scalar.toRat? c with
  | some q => decide (Rat.abs q * Scalar.slack α < 1)
  | none => false

/-- A coefficient such that neither products nor quotients with it bring rounding beyond the slack. -/
def isModestFactor (c : α) : Bool :=
  match Scalar.toRat? c with
  | some q => decide (Scalar.slack α ≤ q * q) && decide (q * q * Scalar.slack α < 1)
  | none => false

/-- Rounding does not matter for the rows of a problem, nor for its initial point. -/
def hasModestNumbers (p : Problem α) : Bool :=
  (p.rows.all fun (_, row) => isModest row.constant && row.terms.all fun t => isModestFactor t.2) &&
    (resize p.initial p.numVars).all isModest

/-- A row in exact numbers. -/
def exactRow (r : Row α) : Row Rat :=
  ⟨(r.terms.map fun t => (t.1, exactNumber t.2)).filter fun t => t.2 ≠ 0, exactNumber r.constant, r.label⟩

/-- A problem in exact numbers. -/
def exactProblem (p : Problem α) : Problem Rat :=
  ⟨p.numVars, p.equalities.map exactRow, p.inequalities.map exactRow, p.boxes, p.containers, p.initial.map exactNumber⟩

/-- The demands of a problem. -/
def demands (p : Problem Rat) : List Demand :=
  p.rows.map fun (kind, row) => ⟨kind, ⟨row.terms.toList, row.constant⟩⟩

/-- The demands of a problem as they can be met, or the first row that cannot be satisfied with those before it. -/
def feasible (slack : Rat) (p : Problem Rat) : Except PassError Feasible :=
  (solveDemands p.numVars slack (demands p)).mapError fun k =>
    .unsatisfiable ((p.rows.map fun (_, row) => row.label).getD k "")

/-- The point of a pass: that of the tableau, or the one that is known to meet the demands, should that of the tableau
not meet them. -/
def exactPoint (p : Problem Rat) (f : Feasible) (rows : Except PassError (Tableau Rat)) (weights : ExtentWeights Rat) :
    Array Rat :=
  let known := (Array.range p.numVars).map f.point
  match rows >>= addWishes p weights with
  | .error _ => known
  | .ok t =>
    let x := pointOf p t
    if f.demands.all fun demand => demand.holds (valueAt x) then x else known

/-! ## The optimizer -/

/-- The way to solve the passes of a problem. -/
def linearPass (p : Problem α) : Except PassError (ExtentWeights α → Except PassError (Array α)) := do
  let rounded (weights : ExtentWeights α) := do return pointOf p (← addWishes p weights (← demandRows p))
  if hasModestNumbers p then
    let q := exactProblem p
    let f ← feasible (Scalar.slack α) q
    if f.demands = demands q then
      if isAnchoredOnce p then
        let rows := demandRows q
        return fun weights => .ok <|
          (exactPoint q f rows (weights.map fun w => (exactNumber w.1, exactNumber w.2))).map Scalar.ofRat
      else throw .anchoredTwice
    else return rounded
  else return rounded

/-- The default optimizer. -/
def minimize : Optimizer α := fun p =>
  match linearPass p with
  | .error e => .error e.message
  | .ok pass => minimizeBy p fun weights => (pass weights).mapError PassError.message

end RectLayout
