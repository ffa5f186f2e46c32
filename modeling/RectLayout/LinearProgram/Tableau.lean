import RectLayout.Scalar

/-!
# Tableaux

The simplex method in the arithmetic of the scalars themselves. `Dictionary` works with exact numbers; a tableau also
takes rows in which a coefficient or a constant is infinite or no number at all, and gives them the meaning that the
arithmetic gives them: an unknown may become infinite, and what compares as neither less nor greater stops nothing.

A row expresses a basic column as an affine function of the others, which are zero at the tableau's point. Demands are
added one after another (`Tableau.demand`), wishes with what a unit of deviation costs (`Tableau.wish`), and an unknown
that is wished to be zero can be moved to another value (`Tableau.move`).
-/

namespace RectLayout.LinearProgram

/-- What a column of a tableau stands for. -/
inductive Role where
  /-- An unknown of the program, which may have any value. -/
  | unknown
  /-- The amount by which an inequality is above zero. It is not negative. -/
  | slack
  /-- The amount by which a wish is missed. It is not negative and has a cost. -/
  | deviation
  /-- The mark of an equality that is demanded. It stays at zero. -/
  | mark
  deriving DecidableEq, Repr

/-- A column of a tableau. No two have the same index. -/
structure Column where
  role : Role
  index : Nat
  deriving DecidableEq, Repr

/-- An affine function of columns, with its cells in increasing order of their indices. -/
structure Combination (α : Type) where
  constant : α
  cells : List (Column × α)

variable {α : Type} [Scalar α]

namespace Combination

/-- An amount that counts as zero. -/
def isNegligible (c : α) : Bool := c == 0 || decide (Scalar.abs c < Scalar.ofRat (Scalar.slack α))

/-- A cell, unless it counts as zero, before others. -/
def consCell (v : Column) (c : α) (cells : List (Column × α)) : List (Column × α) :=
  if isNegligible c then cells else (v, c) :: cells

/-- The cells of `a` plus `c` times the cells of `b`. -/
def addCells (c : α) : List (Column × α) → List (Column × α) → List (Column × α)
  | [], b => b.foldr (fun t r => consCell t.1 (t.2 * c) r) []
  | a, [] => a
  | (v, p) :: a, (w, q) :: b =>
    if v.index < w.index then (v, p) :: addCells c a ((w, q) :: b)
    else if w.index < v.index then consCell w (q * c) (addCells c ((v, p) :: a) b)
    else consCell v (p + q * c) (addCells c a b)
termination_by a b => a.length + b.length

def const (c : α) : Combination α := ⟨c, []⟩

/-- The function plus `c` times a column. -/
def add (f : Combination α) (v : Column) (c : α) : Combination α := { f with cells := addCells c f.cells [(v, 1)] }

/-- The function `f + c * g`. -/
def addScaled (f : Combination α) (c : α) (g : Combination α) : Combination α :=
  ⟨f.constant + g.constant * c, addCells c f.cells g.cells⟩

def scale (f : Combination α) (c : α) : Combination α := ⟨f.constant * c, f.cells.map fun t => (t.1, t.2 * c)⟩

/-- The function or its negative, whichever has a constant that is not negative. -/
def oriented (f : Combination α) : Combination α := if f.constant < 0 then f.scale (-1) else f

/-- The coefficient in the cell of the column with an index, if there is one. -/
def cell? (i : Nat) : List (Column × α) → Option α
  | [] => none
  | (v, c) :: r => if v.index < i then cell? i r else if v.index = i then some c else none

/-- The coefficient of a column, if it occurs. -/
def coefficient? (f : Combination α) (v : Column) : Option α := cell? v.index f.cells

def erase (f : Combination α) (v : Column) : Combination α := { f with cells := f.cells.filter fun t => t.1 ≠ v }

/-- The value of `v` where the function is zero. -/
def solveFor (f : Combination α) (v : Column) : Combination α :=
  match f.coefficient? v with
  | none => f
  | some c => (f.erase v).scale (-1 / c)

/-- The function with `g` in place of `v`, if `v` occurs. -/
def substitute? (f : Combination α) (v : Column) (g : Combination α) : Option (Combination α) :=
  (f.coefficient? v).map fun c => (f.erase v).addScaled c g

/-- The function with `g` in place of `v`. -/
def substitute (f : Combination α) (v : Column) (g : Combination α) : Combination α := (f.substitute? v g).getD f

end Combination

structure Tableau (α : Type) where
  /-- The index of the next new column. -/
  next : Nat
  /-- The basic columns as functions of the others. -/
  rows : List (Column × Combination α)
  /-- The total cost of the deviations. -/
  cost : Combination α
  /-- Basic columns that have come below zero at some time. -/
  below : List Column

/-- Why a tableau takes no further row. -/
inductive Refusal where
  /-- The row contradicts the demands before it. -/
  | contradiction
  /-- Something that is to be least has no least value. -/
  | unbounded
  /-- A column below zero cannot be raised. -/
  | stuck
  deriving DecidableEq, Repr

namespace Tableau

open Combination

/-- The tableau with `n` unknowns and no rows. -/
def empty (n : Nat) : Tableau α := ⟨n, [], .const 0, []⟩

/-- The tableau with one more column, and that column. -/
def fresh (t : Tableau α) (role : Role) : Column × Tableau α := (⟨role, t.next⟩, { t with next := t.next + 1 })

/-- The function of the basic column `v`, if it is one. -/
def row? (t : Tableau α) (v : Column) : Option (Combination α) := t.rows.lookup v

/-- The value of unknown `i` at the tableau's point. -/
def value (t : Tableau α) (i : Nat) : α := ((t.row? ⟨.unknown, i⟩).map Combination.constant).getD 0

/-- A sum of multiples of unknowns and a constant, without basic columns. -/
def express (t : Tableau α) (terms : List (Nat × α)) (constant : α) : Combination α :=
  terms.foldl (fun f (i, c) =>
    if isNegligible c then f
    else match t.row? ⟨.unknown, i⟩ with
      | some g => f.addScaled c g
      | none => f.add ⟨.unknown, i⟩ c) (.const constant)

/-- The tableau without the marks, which stay at zero. No demand can be added to it. -/
def withoutMarks (t : Tableau α) : Tableau α :=
  let strip (f : Combination α) : Combination α := { f with cells := f.cells.filter fun c => c.1.role ≠ .mark }
  { t with rows := t.rows.map fun r => (r.1, strip r.2) }

/-! ## Pivots -/

/-- The tableau in which `v` is basic with the function `f`. -/
def install (t : Tableau α) (v : Column) (f : Combination α) : Tableau α :=
  let rows := t.rows.map fun r => match r.2.substitute? v f with
    | none => r
    | some g => (r.1, g)
  let below := (rows.filter fun (w, g) => w.role ≠ .unknown ∧ g.constant < 0).map Prod.fst
  { t with rows := (v, f) :: rows, cost := t.cost.substitute v f, below := below ++ t.below }

/-- The function of `enter` if it becomes basic instead of `leave`, whose function is `f`. -/
def solved (enter leave : Column) (f : Combination α) : Combination α := (f.add leave (-1)).solveFor enter

/-- The tableau in which `enter` is basic instead of `leave`, whose function is `f`. -/
def exchange (t : Tableau α) (enter leave : Column) (f : Combination α) : Tableau α :=
  { t with rows := t.rows.filter fun r => r.1 ≠ leave }.install enter (solved enter leave f)

/-- The growth of a column that some row bounds. -/
def isBounded (growth : α) : Bool := decide (growth < 0) || (Scalar.toRat? growth).isSome

/-- The first to reach zero when `enter` grows, of the best basic column so far and that of one more row, with the growth
at which it does and its function. -/
def nearer (enter : Column) (best : Option (α × Column × Combination α)) (row : Column × Combination α) :
    Option (α × Column × Combination α) :=
  let (v, f) := row
  match f.coefficient? enter with
  | none => best
  | some c =>
    let growth := -f.constant / c
    if v.role ≠ .unknown ∧ c < 0 ∧ isBounded growth then
      match best with
      | none => some (growth, v, f)
      | some (least, w, _) =>
        if growth < least ∨ (growth == least ∧ v.index < w.index) then some (growth, v, f) else best
    else best

/-- The basic column that reaches zero first when `enter` grows, with its function. -/
def leaving? (t : Tableau α) (enter : Column) : Option (Column × Combination α) :=
  (t.rows.foldl (nearer enter) none).map Prod.snd

/-- The number of pivots after which a search ends. -/
def budget : Nat := 20000

/-- Pivots until no column lowers the function `z`, which is returned with the tableau. -/
def descend : Nat → Tableau α → Combination α → Except Refusal (Tableau α × Combination α)
  | 0, t, z => .ok (t, z)
  | fuel + 1, t, z =>
    match z.cells.find? fun (v, c) => v.role ≠ .mark ∧ c < 0 with
    | none => .ok (t, z)
    | some (enter, _) =>
      match t.leaving? enter with
      | none => .error .unbounded
      | some (leave, f) => descend fuel (t.exchange enter leave f) (z.substitute enter (solved enter leave f))

/-- The column that grows at the least cost among those that raise the function `f`. -/
def raising? (t : Tableau α) (f : Combination α) : Option Column :=
  (f.cells.foldl (fun best (v, c) =>
    let price := (t.cost.coefficient? v).getD 0 / c
    if v.role ≠ .mark ∧ 0 < c ∧ isBounded price then
      match best with
      | none => some (price, v)
      | some (least, _) => if price < least then some (price, v) else best
    else best) none).map Prod.snd

/-- Pivots until no basic column is below zero, as far as they have been noted. -/
def raise : Nat → Tableau α → Except Refusal (Tableau α)
  | 0, t => .ok t
  | fuel + 1, t =>
    match t.below with
    | [] => .ok t
    | leave :: below =>
      let t := { t with below }
      match (t.row? leave).filter fun f => decide (f.constant < 0) with
      | none => raise fuel t
      | some f =>
        match t.raising? f with
        | none => .error .stuck
        | some enter => raise fuel (t.exchange enter leave f)

/-! ## Rows -/

/-- The tableau with a column for the value of a function, and that column. -/
def withColumn (t : Tableau α) (f : Combination α) : Column × Tableau α :=
  let (v, t) := t.fresh .slack
  (v, { t with rows := (v, f) :: t.rows })

/-- The tableau without the column `v`, whose least value is the constant of `z` and has to be zero. -/
def settle (t : Tableau α) (v : Column) (z : Combination α) : Except Refusal (Tableau α) := do
  let t ←
    match t.row? v with
    | none => pure t
    | some f =>
      match f.cells.find? fun (w, _) => w.role = .slack ∨ w.role = .deviation with
      | some (enter, _) => pure (t.exchange enter v f)
      | none => if f.cells.isEmpty then pure { t with rows := t.rows.filter fun r => r.1 ≠ v } else .error .contradiction
  if isNegligible z.constant then
    pure { t with rows := t.rows.map fun (w, g) => (w, g.erase v), cost := t.cost.erase v }
  else .error .contradiction

/-- Adds a function that must be zero, if no column of its own can be basic: a column is introduced for its value and
brought to zero. -/
def addWithColumn (t : Tableau α) (f : Combination α) : Except Refusal (Tableau α) := do
  let (v, t) := t.withColumn f
  let (t, z) ← descend budget t f
  t.settle v z

/-- Adds a function that must be zero and has no negative constant. The columns in `own` are new in it. -/
def placeRow (t : Tableau α) (f : Combination α) (own : List Column) : Except Refusal (Tableau α) :=
  let fromUnknown := (f.cells.find? fun (v, _) => v.role = .unknown).map Prod.fst
  let fromOwn := own.find? fun v =>
    v.role ≠ .mark && ((f.coefficient? v).map fun c => decide (c < 0)).getD false
  let fromMarks := if f.cells.all fun (v, _) => v.role = .mark then own.head? else none
  match fromUnknown <|> fromOwn, fromMarks with
  | some v, _ => .ok (t.install v (f.solveFor v))
  | none, some v => if isNegligible f.constant then .ok (t.install v (f.solveFor v)) else .error .contradiction
  | none, none => t.addWithColumn f

/-- Adds a function that must be zero. The columns in `own` are new in it. -/
def addRow (t : Tableau α) (f : Combination α) (own : List Column) : Except Refusal (Tableau α) := do
  let t ← t.placeRow f.oriented own
  return (← descend budget t t.cost).1

/-- The tableau with the demand that a function is zero, or that it is not negative. -/
def demand (t : Tableau α) (nonNegative : Bool) (terms : List (Nat × α)) (constant : α) :
    Except Refusal (Tableau α) :=
  let f := t.express terms constant
  let (v, t) := t.fresh (if nonNegative then .slack else .mark)
  t.addRow (f.add v (if nonNegative then -1 else 1)) [v]

/-- The cost from which a wish is a demand. -/
def prohibitive : α := Scalar.ofRat 1001001000

/-- The tableau with the wish that a function is zero, and the columns for how far it is above and below. -/
def wishZero (t : Tableau α) (price : α) (terms : List (Nat × α)) (constant : α) :
    Except Refusal (Tableau α × Column × Column) := do
  let f := t.express terms constant
  let (above, t) := t.fresh .deviation
  let (below, t) := t.fresh .deviation
  let t := { t with cost := (t.cost.add above price).add below price }
  let t ← t.addRow ((f.add above (-1)).add below 1) [above, below]
  return (t, above, below)

/-- The tableau with the wish that a function is not negative. -/
def wishNonNegative (t : Tableau α) (price : α) (terms : List (Nat × α)) (constant : α) :
    Except Refusal (Tableau α) := do
  let f := t.express terms constant
  let (above, t) := t.fresh .slack
  let (below, t) := t.fresh .deviation
  { t with cost := t.cost.add below price }.addRow ((f.add above (-1)).add below 1) [above, below]

/-- The tableau with the wish that a function is zero. A price that is not below the prohibitive one makes it a
demand. -/
def wish (t : Tableau α) (price : α) (terms : List (Nat × α)) (constant : α) : Except Refusal (Tableau α) :=
  if price < prohibitive then (t.wishZero price terms constant).map Prod.fst else t.demand false terms constant

/-- The tableau with the wish that an unknown has a value: the wish that it is zero, moved there. -/
def wishValue (t : Tableau α) (price : α) (i : Nat) (value : α) : Except Refusal (Tableau α) := do
  let (t, above, below) ← t.wishZero price [(i, 1)] 0
  let shift (f : Combination α) (amount : α) : Combination α := { f with constant := f.constant + amount }
  let rows := t.rows.map fun (v, f) =>
    (v,
      if (t.row? above).isSome then if v = above then shift f (-value) else f
      else if (t.row? below).isSome then if v = below then shift f value else f
      else match f.coefficient? above with
        | some c => shift f (value * c)
        | none => f)
  let negative := (rows.filter fun (v, f) => v.role ≠ .unknown ∧ f.constant < 0).map Prod.fst
  raise budget { t with rows, below := negative ++ t.below }

end Tableau

end RectLayout.LinearProgram
