import RectLayout.Design.Basic
import RectLayout.Problem.Basic

/-!
# Allocation of unknowns

A solve from a root cell treats the boxes of all active cells that the root draws, and of the objects in them, as
unknown. `Allocation.ofRoot` lists these nodes; node `k` of the list owns the unknowns from `4 * k` on, one for each
coordinate. A template is listed once, however many instances draw it. The boxes of all other nodes are read from the
design.
-/

namespace RectLayout

/-- A coordinate in a solve: an unknown or a number. -/
inductive Operand (α : Type) where
  | unknown (i : Nat)
  | fixed (v : α)
  deriving DecidableEq, Repr

structure Allocation where
  /-- The nodes with unknown boxes. -/
  nodes : List Node
  /-- The active cells. -/
  cells : List CellId
  deriving DecidableEq, Repr

/-- The active cells that a cell draws through active cells, itself first. -/
def Design.activeCells {α : Type} (d : Design α) (root : CellId) : List CellId :=
  if d.isActive root then Walk.preorder d.activeTemplates (d.cells.size + 1) [] root else []

namespace Allocation

variable {α : Type}

/-- The allocation of a solve. A frozen root is refused. -/
def ofRoot (d : Design α) (root : CellId) : Except LayoutError Allocation := do
  let _ ← d.getUnfrozen root
  let cells := d.activeCells root
  return ⟨cells.flatMap fun c => .cell c :: d.children c, cells⟩

/-- The number of unknowns. -/
def numVars (a : Allocation) : Nat := a.nodes.length * 4

/-- The first unknown of a node. -/
def base? (a : Allocation) (n : Node) : Option Nat := (a.nodes.idxOf? n).map (· * 4)

/-- The nodes with their first unknowns. -/
def bases (a : Allocation) : List (Node × Nat) := a.nodes.zipIdx.map fun (n, k) => (n, k * 4)

/-- The unknowns from `base` on, as a box. -/
def unknowns (base : Nat) : Box (Operand α) :=
  ⟨.unknown base, .unknown (base + 1), .unknown (base + 2), .unknown (base + 3)⟩

/-- The coordinates of a node: its unknowns, or else its box in the design. -/
def operands? (a : Allocation) (d : Design α) (n : Node) : Option (Box (Operand α)) :=
  match a.base? n with
  | some base => some (unknowns base)
  | none => (d.box? n).map (Box.map .fixed)

/-- The box of a node at a point. -/
def boxOf? [Scalar α] (a : Allocation) (n : Node) (x : Array α) : Option (Box α) := (a.base? n).map (boxAt x)

end Allocation

end RectLayout
