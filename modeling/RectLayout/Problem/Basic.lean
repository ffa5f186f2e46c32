import RectLayout.Box
import RectLayout.Problem.Row

/-!
# Problems

The unknowns of a problem come in blocks of four: the corners of one box. A problem asks for a point at which every
equality row is zero and every inequality row is not negative, and at which the total area of some boxes is small.

* `Problem.isSatisfied`, `Problem.violated`, `Problem.totalViolation`: how far a point is from that;
* `area` and `areaGradient`: the objective and its derivative.
-/

namespace RectLayout

/-- What a problem demands of a row. -/
inductive RowKind where
  | equality
  | inequality
  deriving DecidableEq, Repr, Inhabited

/-! ## The objective -/

section Area

variable {α : Type} [Scalar α]

/-- The box whose corners are the unknowns from `base` on. -/
def boxAt (x : Array α) (base : Nat) : Box α :=
  ⟨valueAt x base, valueAt x (base + 1), valueAt x (base + 2), valueAt x (base + 3)⟩

/-- The total area of the boxes that start at the given unknowns. -/
def area (boxes : List Nat) (x : Array α) : α := Scalar.sum (boxes.map fun b => (boxAt x b).area)

/-- The partial derivatives of `area boxes` at a point. -/
def areaGradient (boxes : List Nat) (x : Array α) : Array α :=
  boxes.foldl (fun g b =>
    let w := (boxAt x b).width
    let h := (boxAt x b).height
    (((g.modify b (· - h)).modify (b + 2) (· + h)).modify (b + 1) (· - w)).modify (b + 3) (· + w))
    (Array.replicate x.size 0)

end Area

/-! ## Problems -/

structure Problem (α : Type) where
  /-- The number of unknowns. -/
  numVars : Nat
  equalities : List (Row α)
  inequalities : List (Row α)
  /-- The first unknowns of the boxes whose area counts. -/
  boxes : List Nat
  /-- The first unknowns of the boxes of cells. Their area does not count, as they are fitted to their content
  afterwards. -/
  containers : List Nat
  /-- The point near which a solution is wanted. -/
  initial : Array α
  deriving DecidableEq, Repr, Inhabited

section

variable {α : Type} [Scalar α]

/-- The amount by which a value misses what is demanded of a row. -/
def RowKind.violation : RowKind → α → α
  | .equality, v => Scalar.abs v
  | .inequality, v => max (-v) 0

namespace Problem

/-- All rows of a problem with what is demanded of them, equalities first. -/
def rows (p : Problem α) : List (RowKind × Row α) :=
  p.equalities.map (RowKind.equality, ·) ++ p.inequalities.map (RowKind.inequality, ·)

/-- Every row holds within the tolerance. -/
def isSatisfied (p : Problem α) (x : Array α) (tolerance : α) : Bool :=
  p.rows.all fun (kind, row) => kind.violation (row.eval x) ≤ tolerance

/-- The rows that miss their demand by more than the tolerance. -/
def violated (p : Problem α) (x : Array α) (tolerance : α) : List (RowKind × Row α) :=
  p.rows.filter fun (kind, row) => tolerance < kind.violation (row.eval x)

/-- The sum of all violations above the tolerance. -/
def totalViolation (p : Problem α) (x : Array α) (tolerance : α) : α :=
  Scalar.sum ((p.rows.map fun (kind, row) => kind.violation (row.eval x)).filter fun v => tolerance < v)

/-- The labels of the rows that miss their demand by more than the tolerance. -/
def violatedLabels (p : Problem α) (x : Array α) (tolerance : α) : List String :=
  (p.violated x tolerance).map fun (_, row) => row.label

end Problem

end

end RectLayout
