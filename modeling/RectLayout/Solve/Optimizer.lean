import RectLayout.Problem.Basic

/-!
# Optimizers

An optimizer looks for a point that satisfies the rows of a problem and makes the total area small. What an external
one answers is a record of which nothing is sure (`Optimization`); those of the library have a point or a message.

`minimizeBy` looks for the point by several linear passes: each pulls the width and height of every box towards zero
with a weight that follows the derivative of the area at the point before. Passes end when these weights settle, and the
point of the least area wins. It works over any way to solve one pass; `RectLayout.Solve.LinearPass` has the usual one.
-/

namespace RectLayout

/-- The answer of an optimizer. -/
structure Optimization (α : Type) where
  success : Bool
  /-- A value for every unknown; it means something only with success. -/
  x : Array α
  /-- Why there is no point; meant to be empty with success. -/
  message : String
  deriving DecidableEq, Repr

namespace Optimization

variable {α : Type}

/-- The answer that there is a point. -/
def solved (x : Array α) : Optimization α := ⟨true, x, ""⟩

/-- The answer that there is no point. -/
def failed (message : String) : Optimization α := ⟨false, #[], message⟩

end Optimization

/-- Any way to solve problems, whatever its answers are. -/
abbrev ExternalOptimizer (α : Type) := Problem α → Optimization α

/-- A way to solve problems: a point, or a message that says why there is none. -/
abbrev Optimizer (α : Type) := Problem α → Except String (Array α)

/-- An optimizer with its answers as records. -/
def Optimizer.external {α : Type} (optimizer : Optimizer α) : ExternalOptimizer α := fun p =>
  match optimizer p with
  | .ok x => .solved x
  | .error message => .failed message

instance {α : Type} : Coe (Optimizer α) (ExternalOptimizer α) := ⟨Optimizer.external⟩

variable {α : Type} [Scalar α]

/-- The weights of the widths and heights of the boxes whose area counts. -/
abbrev ExtentWeights (α : Type) := List (α × α)

namespace ExtentWeights

/-- The weights that follow the derivative of the area at a point, scaled so that none is above one. A box thinner
than a grid unit still pulls on its other extent. -/
def atPoint (boxes : List Nat) (x : Array α) : ExtentWeights α :=
  let g := areaGradient boxes x
  let raw := boxes.map fun b => (max (valueAt g (b + 2)) 1, max (valueAt g (b + 3)) 1)
  let scale := (raw.map fun w => max w.1 w.2).foldl max 1
  raw.map fun w => (w.1 / scale, w.2 / scale)

/-- The difference at which weights count as the same, and areas too. -/
def settling : α := Scalar.ofRat (1 / 1000000)

/-- The weights are the same as others. -/
def settled (a b : ExtentWeights α) : Bool :=
  a.length == b.length && (a.zip b).all fun (v, w) =>
    decide (Scalar.abs (v.1 - w.1) ≤ settling) && decide (Scalar.abs (v.2 - w.2) ≤ settling)

end ExtentWeights

/-- The violation that a pass may leave in a row. -/
def passTolerance : α := Scalar.ofRat (1 / 1000000)

/-- The point of one pass, if it satisfies the rows. -/
def checkedPass (p : Problem α) (pass : ExtentWeights α → Except String (Array α)) (weights : ExtentWeights α) :
    Except String (Array α) :=
  match pass weights with
  | .error message => .error message
  | .ok x =>
    if p.isSatisfied x passTolerance then .ok x
    else .error ("solver returned an infeasible point, violating: " ++
      String.intercalate "; " (p.violatedLabels x passTolerance))

/-- At most `n` more passes. `best` is the point of the least area so far, with that area. A failing pass ends the
passes and leaves the best point. -/
def passesFrom (p : Problem α) (pass : ExtentWeights α → Except String (Array α)) :
    Nat → ExtentWeights α → Array α → α → Array α
  | 0, _, best, _ => best
  | n + 1, weights, best, least =>
    match checkedPass p pass weights with
    | .error _ => best
    | .ok x =>
      let value := area p.boxes x
      let (best, least) := if value < least - ExtentWeights.settling then (x, value) else (best, least)
      let next := ExtentWeights.atPoint p.boxes x
      if next.settled weights then best else passesFrom p pass n next best least

/-- The greatest number of passes. -/
def maxPasses : Nat := 8

/-- The point with its length made `n`, zeros at its end. -/
def resize (x : Array α) (n : Nat) : Array α := (Array.range n).map (valueAt x)

/-- The point of the least area among those of at most eight passes, or the message of the first pass if that fails. -/
def minimizeBy (p : Problem α) (pass : ExtentWeights α → Except String (Array α)) : Except String (Array α) :=
  let weights := ExtentWeights.atPoint p.boxes (resize p.initial p.numVars)
  match checkedPass p pass weights with
  | .error message => .error message
  | .ok x =>
    let next := ExtentWeights.atPoint p.boxes x
    if next.settled weights then .ok x
    else .ok (passesFrom p pass (maxPasses - 1) next x (area p.boxes x))

end RectLayout
