import RectLayout.Design.Basic
import RectLayout.Library.Basic
import RectLayout.Library.Layers

/-!
# Export

`Library.ofDesign` writes a cell and everything it draws as a library, templates before the cells that draw them. The
top cell keeps its coordinates. Every other cell is written relative to the lower left corner of its content, and a
reference stands at the lower left corner of its instance, so that the library shows what `Design.flatten` draws.
Polygons and instances without a box are left out.
-/

namespace RectLayout

variable {α : Type} [Scalar α]

/-- The cells that a cell draws, templates first, itself last. -/
def Design.dependencies (d : Design α) (top : CellId) : List CellId :=
  Walk.postorder d.templates (d.cells.size + 1) [] top

namespace Library

/-- A length in units of the library: the nearest integer, clamped to 64 bits. -/
def toUnits (ratio v : α) : Int := Scalar.toInt64 (Scalar.round (v * ratio))

/-- The point that becomes the origin of an exported cell. -/
def origin (d : Design α) (c : CellId) (isTop : Bool) : α × α :=
  match d.contentBox? c with
  | some box => if isTop then (0, 0) else (box.x1, box.y1)
  | none => (0, 0)

/-- The rectangle of a bound polygon. -/
def rectOf (layers : LayerTable) (ratio : α) (origin : α × α) (layer : String) (box : Box α) :
    Except LayoutError LibraryRect :=
  match layers.get? layer with
  | none => .error (.unknownLayer layer)
  | some spec => .ok ⟨spec.layer, spec.datatype, toUnits ratio (box.x1 - origin.1), toUnits ratio (box.y1 - origin.2),
      toUnits ratio (box.x2 - origin.1), toUnits ratio (box.y2 - origin.2)⟩

/-- The bound polygons of a cell with their boxes. -/
def boundPolygons (d : Design α) (cell : Cell α) : List (Polygon α × Box α) :=
  cell.polygons.filterMap fun p => do
    let polygon ← d.polygon? p
    return (polygon, ← polygon.box)

/-- The bound instances of a cell with their boxes. -/
def boundInstances (d : Design α) (cell : Cell α) : List (Instance α × Box α) :=
  cell.instances.filterMap fun i => do
    let inst ← d.instance? i
    return (inst, ← inst.box)

/-- A cell of a design as a cell of a library. -/
def cellOf (d : Design α) (layers : LayerTable) (ratio : α) (top c : CellId) : Except LayoutError LibraryCell := do
  let cell ← d.getCell c
  let origin := origin d c (c = top)
  let rects ← (boundPolygons d cell).mapM fun (p, box) => rectOf layers ratio origin p.layer box
  let refs := (boundInstances d cell).map fun (i, box) =>
    ⟨i.name, d.name (.cell i.template), toUnits ratio (box.x1 - origin.1), toUnits ratio (box.y1 - origin.2)⟩
  return ⟨cell.name, rects, refs⟩

/-- The library of a cell and everything it draws. -/
def ofDesign (d : Design α) (top : CellId) (layers : LayerTable) (ratio : α) : Except LayoutError (Library α) := do
  let cells ← (d.dependencies top).mapM (cellOf d layers ratio top)
  return ⟨ratio, cells⟩

/-- The units in a unit of length when nothing else is said. -/
def standardRatio : α := Scalar.ofNat 1000

end Library

end RectLayout
