import RectLayout.Box

/-!
# Clauses

A clause compares two sums of terms; a term is a number, or a multiple of one coordinate of the subject's or the
object's box. `Clause.relation` brings all terms to one side: a clause says that a sum is zero, or that it is not
negative. Strict comparisons are read as the ones that allow equality.
-/

namespace RectLayout

/-! ## Coordinates -/

/-- Whose box a coordinate belongs to. -/
inductive Role where
  | subject
  | object
  deriving DecidableEq, Repr

/-- A coordinate that a clause can name. -/
structure Coord where
  role : Role
  axis : Axis
  corner : Corner
  deriving DecidableEq, Repr

namespace Coord

/-- The place of a coordinate among the four of a box. -/
def slot (c : Coord) : Nat :=
  match c.axis, c.corner with
  | .x, .min => 0
  | .y, .min => 1
  | .x, .max => 2
  | .y, .max => 3

/-- The coordinate with a two-letter name such as `x1`, of the box of a role. -/
def ofLetters? (role : Role) (axis corner : Char) : Option Coord := do
  let axis ← if axis = 'x' then some Axis.x else if axis = 'y' then some Axis.y else none
  let corner ← if corner = '1' then some Corner.min else if corner = '2' then some Corner.max else none
  return ⟨role, axis, corner⟩

/-- The coordinate of a name: `s` or `o` for the role, then axis and corner. Without a role the subject is meant. -/
def ofName? (name : String) : Option Coord :=
  match name.toList with
  | [axis, corner] => ofLetters? .subject axis corner
  | ['s', axis, corner] => ofLetters? .subject axis corner
  | ['o', axis, corner] => ofLetters? .object axis corner
  | _ => none

/-- The full name of a coordinate. -/
def name (c : Coord) : String :=
  String.ofList [
    match c.role with | .subject => 's' | .object => 'o',
    match c.axis with | .x => 'x' | .y => 'y',
    match c.corner with | .min => '1' | .max => '2']

theorem ofName?_name (c : Coord) : ofName? c.name = some c := by
  obtain ⟨r, a, k⟩ := c
  cases r <;> cases a <;> cases k <;> rfl

end Coord

/-! ## Sums -/

/-- A multiple of a coordinate, or a number by itself. -/
structure Term (α : Type) where
  coefficient : α
  coord : Option Coord
  deriving DecidableEq, Repr

/-- The sum of a list of terms. -/
structure LinearExpr (α : Type) where
  terms : List (Term α)
  deriving DecidableEq, Repr

/-- The difference of two sums. -/
def LinearExpr.minus {α : Type} [Neg α] (a b : LinearExpr α) : LinearExpr α :=
  ⟨a.terms ++ b.terms.map fun t => { t with coefficient := -t.coefficient }⟩

/-! ## Comparisons -/

inductive Comparison where
  | less
  | lessOrEqual
  | greater
  | greaterOrEqual
  | equal
  deriving DecidableEq, Repr

/-- The symbols of the comparisons, longer ones before their beginnings: the order in which a clause is searched. -/
def Comparison.symbols : List (String × Comparison) :=
  [("<=", .lessOrEqual), (">=", .greaterOrEqual), ("<", .less), (">", .greater), ("=", .equal)]

/-- One comparison, with the text it was read from. -/
structure Clause (α : Type) where
  text : String
  comparison : Comparison
  lhs : LinearExpr α
  rhs : LinearExpr α
  deriving DecidableEq, Repr

/-- What a clause demands of one sum. -/
inductive Relation (α : Type) where
  | equal (e : LinearExpr α)
  | nonNegative (e : LinearExpr α)
  deriving DecidableEq, Repr

/-- The demand of a clause, with all terms on one side. -/
def Clause.relation {α : Type} [Neg α] (c : Clause α) : Relation α :=
  match c.comparison with
  | .equal => .equal (c.lhs.minus c.rhs)
  | .less | .lessOrEqual => .nonNegative (c.rhs.minus c.lhs)
  | .greater | .greaterOrEqual => .nonNegative (c.lhs.minus c.rhs)

end RectLayout
