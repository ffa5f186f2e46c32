import RectLayout.Problem.Basic
import RectLayout.Solve.Config

/-!
# Correction to the integer grid

`correct` moves a point to whole numbers and keeps the rows of a problem satisfied if it can: it rounds, rounds down,
rounds up, and then searches around the best of the three, moving one unknown at a time. If nothing satisfies every
row, the best point found comes back with the rows it violates.
-/

namespace RectLayout

/-- Which way led to the corrected values. -/
inductive Strategy where
  | round
  | floor
  | ceil
  | localSearch
  /-- No way satisfied every row. -/
  | bestEffort
  deriving DecidableEq, Repr

def Strategy.name : Strategy → String
  | round => "round"
  | floor => "floor"
  | ceil => "ceil"
  | localSearch => "local search"
  | bestEffort => "best effort"

structure Correction (α : Type) where
  values : Array α
  strategy : Strategy
  /-- The total violation of the rows at `values`. -/
  residual : α
  /-- The labels of the violated rows. -/
  violated : List String
  deriving DecidableEq, Repr

/-- The report that a corrected point violates rows. -/
structure RoundingWarning (α : Type) where
  residual : α
  violated : List String
  deriving DecidableEq, Repr

section

variable {α : Type} [Scalar α]

def RoundingWarning.text (w : RoundingWarning α) : String :=
  "integer rounding left a residual violation of " ++ Scalar.text w.residual ++ " in: " ++
    String.intercalate "; " w.violated

/-- A correction is exact if some way satisfied every row. -/
def Correction.isExact (c : Correction α) : Bool := c.strategy != .bestEffort

def Correction.warning (c : Correction α) : Option (RoundingWarning α) :=
  if c.isExact then none else some ⟨c.residual, c.violated⟩

end

namespace Correction

variable {α : Type} [Scalar α]

/-! ## Moves -/

/-- The offsets up to `window`, nearer ones first, down before up. -/
def offsets (window : Int) : List α :=
  (List.range window.toNat).flatMap fun k => [-(Scalar.ofNat (k + 1)), Scalar.ofNat (k + 1)]

/-- How promising it is to move unknown `i`: its distance from the grid in the solution, and the number of violated
rows on which it has influence. -/
def criticality (violated : List (RowKind × Row α)) (config : CorrectionConfig α) (i : Nat) (v : α) : α :=
  let sensitive := violated.countP fun (_, row) =>
    config.changeThreshold < Scalar.abs (row.coefficient i * config.probeDelta)
  Scalar.abs (v - Scalar.round v) + Scalar.ofNat sensitive

/-- The unknowns, the most critical first, equally critical ones in their order. -/
def rankByCriticality (p : Problem α) (x current : Array α) (config : CorrectionConfig α) : List Nat :=
  let violated := p.violated current config.tolerance
  let scored := x.toList.zipIdx.map fun (v, i) => (i, criticality violated config i v)
  (scored.mergeSort fun a b => Scalar.ranksBelow b.2 a.2).map Prod.fst

/-- The point with unknown `m.1` moved by `m.2`. -/
def move (x : Array α) (m : Nat × α) : Array α := x.modify m.1 (· + m.2)

/-- The moves that one round tries, in order. -/
def moves (p : Problem α) (x current : Array α) (config : CorrectionConfig α) : List (Nat × α) :=
  ((rankByCriticality p x current config).take config.topK).flatMap fun i => (offsets config.window).map (i, ·)

/-- The first of the moves with the least total violation, if that is below `bound`, with its violation. -/
def bestMove (p : Problem α) (current : Array α) (tolerance bound : α) (ms : List (Nat × α)) :
    Option ((Nat × α) × α) :=
  ms.foldl (fun best m =>
    let v := p.totalViolation (move current m) tolerance
    if v < (best.map Prod.snd).getD bound then some (m, v) else best) none

/-! ## The search -/

/-- At most `rounds` rounds of moves from a point with total violation `violation`: the point reached, and whether it
satisfies every row. A move that satisfies every row is taken at once, otherwise the best one if it is an
improvement. -/
def localSearch (p : Problem α) (x : Array α) (config : CorrectionConfig α) : Nat → Array α → α → Array α × Bool
  | 0, current, _ => (current, p.isSatisfied current config.tolerance)
  | rounds + 1, current, violation =>
    let ms := moves p x current config
    match ms.find? fun m => p.isSatisfied (move current m) config.tolerance with
    | some m => (move current m, true)
    | none =>
      match bestMove p current config.tolerance violation ms with
      | some (m, v) => localSearch p x config rounds (move current m) v
      | none => (current, p.isSatisfied current config.tolerance)

/-- The three roundings of a point, in the order in which they are tried. -/
def roundings (x : Array α) : List (Strategy × Array α) :=
  [(.round, x.map Scalar.round), (.floor, x.map Scalar.floor), (.ceil, x.map Scalar.ceil)]

/-- The first of the points with the least total violation, with that violation. -/
def leastViolated (p : Problem α) (tolerance : α) (start : Array α) (points : List (Array α)) : Array α × α :=
  points.foldl (fun best y =>
    let v := p.totalViolation y tolerance
    if v < best.2 then (y, v) else best) (start, p.totalViolation start tolerance)

/-- The report on a corrected point. -/
def report (p : Problem α) (tolerance : α) (strategy : Strategy) (values : Array α) : Correction α :=
  ⟨values, strategy, p.totalViolation values tolerance, p.violatedLabels values tolerance⟩

end Correction

open Correction in
/-- The solution `x` of a problem moved to the integer grid. -/
def correct {α : Type} [Scalar α] (p : Problem α) (x : Array α) (config : CorrectionConfig α) : Correction α :=
  match (roundings x).find? fun (_, y) => p.isSatisfied y config.tolerance with
  | some (strategy, y) => report p config.tolerance strategy y
  | none =>
    let (start, violation) := leastViolated p config.tolerance (x.map Scalar.round)
      [x.map Scalar.floor, x.map Scalar.ceil]
    let (values, satisfied) := localSearch p x config config.maxRounds start violation
    report p config.tolerance (if satisfied then .localSearch else .bestEffort) values

end RectLayout
