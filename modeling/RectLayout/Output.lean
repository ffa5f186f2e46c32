import RectLayout.Design.Basic
import RectLayout.Library.Basic
import RectLayout.Scalar.Double
import RectLayout.Toml.Section

/-!
# Output documents

A solved design and a library as TOML documents: one table for each cell, and below it one for each object in the cell.
-/

namespace RectLayout

open Toml

/-- The entry of a box, if there is one. -/
def boxEntry (box : Option (Box Float)) : List (String × String) :=
  match box with
  | some box => [("bbox", array (box.toList.map number))]
  | none => []

namespace Design

/-- An object of a cell: its name, its box and its area. -/
def objectSection (d : Design Float) (n : Node) : Section :=
  { path := "cell.objects"
    entries := ("name", quote (d.name n)) :: boxEntry (d.box? n) ++
      match d.box? n with
      | some box => [("area", number box.area)]
      | none => [] }

/-- A cell and its objects. -/
def cellSections (d : Design Float) (c : CellId) : List Section :=
  let frozen := match d.cell? c with
    | some cell => cell.isFrozen
    | none => false
  { path := "cell"
    entries := ("name", quote (d.name (.cell c))) :: boxEntry (d.box? (.cell c)) ++
      [("frozen", if frozen then "true" else "false")] } ::
    (d.children c).map d.objectSection

/-- The boxes of a design. -/
def toToml (d : Design Float) : String :=
  if d.cellIds.isEmpty then Section.document [{ path := none, entries := [("cell", array [])] }]
  else Section.document (d.cellIds.flatMap d.cellSections)

end Design

namespace Library

/-- The entry of a list that has nothing to show. -/
def emptyEntry {β : Type} (name : String) (items : List β) : List (String × String) :=
  if items.isEmpty then [(name, array [])] else []

/-- A cell with its rectangles and references. -/
def cellSections (c : LibraryCell) : List Section :=
  { path := "cell"
    entries := ("name", quote c.name) :: emptyEntry "rects" c.rects ++ emptyEntry "refs" c.refs } ::
    c.rects.map (fun r => { path := "cell.rects", entries := [("layer", toString r.layer),
      ("datatype", toString r.datatype), ("x1", toString r.x1), ("y1", toString r.y1), ("x2", toString r.x2),
      ("y2", toString r.y2)] }) ++
    c.refs.map fun r => { path := "cell.refs", entries := [("name", quote r.name), ("cell", quote r.cell),
      ("x", toString r.x), ("y", toString r.y)] }

/-- The whole of a library. -/
def toToml (lib : Library Float) : String :=
  let cells := if lib.cells.isEmpty then [("cell", array [])] else []
  Section.document ({ path := none, entries := ("unit_ratio", number lib.unitRatio) :: cells } ::
    lib.cells.flatMap cellSections)

end Library

end RectLayout
