import RectLayout.LinearProgram.Form
import RectLayout.Problem.Basic

/-!
# Demands and conflicts

A demand says that a form is zero or not negative. A `Conflict` shows that a demand cannot be met together with the
ones before it: the form of the demand, up to its sign if it is an equality, is a negative constant plus multiples of
their forms, and no multiple of an inequality's form is positive. `Conflict.isValid` checks this without any search.
-/

namespace RectLayout.LinearProgram

/-- The demand that a form is zero, or that it is not negative. -/
structure Demand where
  kind : RowKind
  form : Form
  deriving DecidableEq, Repr, Inhabited

/-- The demand is met at a point. -/
def Demand.holds (d : Demand) (x : Nat → Rat) : Bool :=
  match d.kind with
  | .equality => d.form.eval x == 0
  | .inequality => decide (0 ≤ d.form.eval x)

/-- Why demand `index` of a list cannot be met together with the ones before it. -/
structure Conflict where
  index : Nat
  /-- The sign with which the form of the demand is taken. -/
  sign : Rat
  /-- Earlier demands with the multiples of their forms. -/
  multiples : List (Nat × Rat)
  deriving Repr

namespace Conflict

/-- The form of the demand less the multiples of the others. -/
def remainder (c : Conflict) (demands : Array Demand) : Form :=
  c.multiples.foldl (fun f m => f.addScaled (-m.2) (demands.getD m.1 default).form)
    (((demands.getD c.index default).form).scale c.sign)

/-- The multiples have the signs and the remainder that make the demands contradict each other. -/
def isValid (c : Conflict) (demands : Array Demand) : Bool :=
  decide (c.index < demands.size) &&
  ((demands.getD c.index default).kind == .equality || decide (0 < c.sign)) &&
  (c.multiples.all fun m => decide (m.1 < c.index) &&
    ((demands.getD m.1 default).kind == .equality || decide (m.2 ≤ 0))) &&
  (c.remainder demands).terms.isEmpty && decide ((c.remainder demands).constant < 0)

end Conflict

end RectLayout.LinearProgram
