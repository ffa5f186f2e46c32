import RectLayout.Design.Propagate
import RectLayout.Solve.Compile
import RectLayout.Solve.Correction
import RectLayout.Solve.LinearPass

/-!
# Solving

`Design.solveWith` allocates unknowns, compiles the constraints, asks an optimizer for a point, moves it to the integer
grid and writes the boxes into the design, which is fitted to them. A solve that fails leaves the design as it was. As
templates are shared, solving a cell also changes what every other instance of its templates draws.
-/

namespace RectLayout

structure SolveReport (α : Type) where
  success : Bool
  /-- Why there is no solution; empty if there is one. -/
  message : String
  strategy : Option Strategy
  /-- The rows that the boxes on the grid violate, if there are any. -/
  warning : Option (RoundingWarning α)
  /-- The total area of the solved polygons and instances. -/
  objective : α
  /-- The number of unknowns. -/
  unknowns : Nat
  deriving DecidableEq, Repr

namespace SolveReport

variable {α : Type}

/-- The report of a solve without a solution. -/
def failed [Zero α] (message : String) (unknowns : Nat) : SolveReport α := ⟨false, message, none, none, 0, unknowns⟩

/-- The message for constant rows that do not hold, by their labels. -/
def neverHold (labels : List String) : String := "constraints can never hold: " ++ String.intercalate "; " labels

/-- The report, or an error if there is no solution. -/
def toExcept (r : SolveReport α) : Except LayoutError (SolveReport α) :=
  if r.success then .ok r else .error (.unsatisfiable r.message)

end SolveReport

namespace Design

variable {α : Type} [Scalar α]

/-- The design in which every node of an allocation has its box at a point. -/
def writeBoxes (d : Design α) (a : Allocation) (x : Array α) : Design α :=
  a.nodes.foldl (fun d n => match a.boxOf? n x with | some box => d.writeBox n (some box) | none => d) d

/-- A solve from a root cell with any optimizer. A point of the wrong length is no solution. -/
def solveWith (d : Design α) (root : CellId) (config : SolveConfig α) (optimizer : ExternalOptimizer α) :
    Except LayoutError (Design α × SolveReport α) := do
  let a ← Allocation.ofRoot d root
  let ⟨problem, infeasible⟩ ← compile d a config
  if infeasible.isEmpty then
    let answer := optimizer problem
    if answer.success ∧ answer.x.size = problem.numVars then
      let c := correct problem answer.x config.correction
      return ((d.writeBoxes a c.values).propagate root,
        ⟨true, "", some c.strategy, c.warning, area problem.boxes c.values, a.numVars⟩)
    else return (d, .failed answer.message a.numVars)
  else return (d, .failed (SolveReport.neverHold infeasible) a.numVars)

/-- A solve from a root cell. -/
def solve (d : Design α) (root : CellId) (config : SolveConfig α) : Except LayoutError (Design α × SolveReport α) :=
  d.solveWith root config (minimize : Optimizer α)

end Design

end RectLayout
