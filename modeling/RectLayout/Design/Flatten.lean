import RectLayout.Design.Basic

/-!
# Flattening

The drawing of a cell is the list of its polygons and of those of its instances. An instance draws the content of its
template, moved so that the lower left corner of the content comes to the lower left corner of the instance.
-/

namespace RectLayout

/-- A polygon as it is drawn, with the names of the instances that lead to it. -/
structure FlatRect (α : Type) where
  path : List String
  layer : String
  box : Box α
  deriving DecidableEq, Repr

namespace Design

variable {α : Type} [Scalar α]

/-- The bound polygons of a cell, drawn at an offset below a path. -/
def flatPolygons (d : Design α) (cell : Cell α) (dx dy : α) (path : List String) : List (FlatRect α) :=
  cell.polygons.filterMap fun p => do
    let polygon ← d.polygon? p
    let box ← polygon.box
    return ⟨path ++ [polygon.name], polygon.layer, box.translate dx dy⟩

/-- The drawing of a cell at an offset below a path, down to as many levels as there is fuel. -/
def flattenFrom (d : Design α) : Nat → CellId → α → α → List String → List (FlatRect α)
  | 0, _, _, _, _ => []
  | fuel + 1, c, dx, dy, path =>
    match d.cell? c with
    | none => []
    | some cell =>
      d.flatPolygons cell dx dy path ++ cell.instances.flatMap fun i =>
        match d.instance? i with
        | none => []
        | some inst =>
          match inst.box, d.contentBox? inst.template with
          | some box, some content =>
            flattenFrom d fuel inst.template (dx + box.x1 - content.x1) (dy + box.y1 - content.y1)
              (path ++ [inst.name])
          | _, _ => []

/-- The drawing of a cell. A chain of templates has no cell twice, so it has no more levels than there are cells. -/
def flatten (d : Design α) (c : CellId) : List (FlatRect α) := d.flattenFrom (d.cells.size + 1) c 0 0 []

end Design

end RectLayout
