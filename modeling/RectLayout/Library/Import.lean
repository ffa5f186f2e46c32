import RectLayout.Design.Freeze
import RectLayout.Library.Basic
import RectLayout.Library.Layers

/-!
# Import

`Library.toDesign` builds a design from a cell of a library and all cells that it refers to, each name once. Polygons
are named by their layer and their number in the cell, instances by their references; all are placed, and a cell has
the box of its content. A library that refers to a missing cell, or in circles, is refused.
-/

namespace RectLayout.Library

variable {α : Type} [Scalar α]

/-- The design so far, with the cells of the names that are done. -/
structure Imported (α : Type) where
  design : Design α
  done : List (String × CellId)

/-- What an import is told. -/
structure ImportConfig (α : Type) where
  layers : ReverseLayers
  /-- Units of the library in a unit of length. -/
  scale : α
  /-- Whether the cells are frozen. -/
  freeze : Bool

/-- A length of a library as a scalar. -/
def fromUnits (config : ImportConfig α) (n : Int) : α := Scalar.ofInt n / config.scale

/-- The design with a rectangle of a cell as a polygon. -/
def importRect (config : ImportConfig α) (c : CellId) (d : Design α) (r : LibraryRect) (n : Nat) :
    Except LayoutError (Design α) := do
  match config.layers.lookup ⟨r.layer, r.datatype⟩ with
  | none => .error (.unknownLayer s!"{r.layer}/{r.datatype}")
  | some layer =>
    let (d, p) ← d.addPolygon c s!"{layer}_{n}" layer
    d.setBox (.polygon p)
      ⟨fromUnits config r.x1, fromUnits config r.y1, fromUnits config r.x2, fromUnits config r.y2⟩

/-- The design with a reference of a cell as an instance. -/
def importRef (config : ImportConfig α) (c : CellId) (d : Design α) (r : LibraryRef) (template : CellId) :
    Except LayoutError (Design α) := do
  let (d, i) ← d.addInstance c r.name template
  let x := fromUnits config r.x
  let y := fromUnits config r.y
  let placed := match d.contentBox? template with
    | some box => box.movedTo x y
    | none => ⟨x, y, x, y⟩
  d.setBox (.inst i) placed

/-- The design with a cell filled from its form in the library. -/
def importContent (config : ImportConfig α) (source : LibraryCell) (templates : List CellId) (d : Design α) :
    Except LayoutError (Design α × CellId) := do
  let (d, c) := d.addCell source.name
  let d ← source.rects.zipIdx.foldlM (fun d (r, n) => importRect config c d r n) d
  let d ← (source.refs.zip templates).foldlM (fun d (r, template) => importRef config c d r template) d
  match Box.tight? (d.childBoxes c) with
  | none => return (d, c)
  | some box =>
    let d ← d.setBox (.cell c) box
    if config.freeze then
      let (d, _) ← d.freeze c
      return (d, c)
    else return (d, c)

/-- The cell of a name, imported after the cells it refers to. The names on the way to it are `pending`; the fuel is
more than the number of different names. -/
def importCell (lib : Library α) (config : ImportConfig α) :
    Nat → List String → Imported α → String → Except LayoutError (Imported α × CellId)
  | 0, _, _, name => .error (.recursiveInstance name name)
  | fuel + 1, pending, state, name =>
    match state.done.lookup name with
    | some c => .ok (state, c)
    | none =>
      if pending.contains name then .error (.recursiveInstance name name)
      else
        match lib.cell? name with
        | none => .error (.missingCell name)
        | some source => do
          let (state, templates) ← source.refs.foldlM (fun (state, templates) r => do
            let (state, c) ← importCell lib config fuel (name :: pending) state r.cell
            return (state, templates ++ [c])) (state, ([] : List CellId))
          let (d, c) ← importContent config source templates state.design
          return (⟨d, state.done ++ [(name, c)]⟩, c)

/-- The design of the cell `top` of a library, and its handle. The library's own ratio counts if it is positive. -/
def toDesign (lib : Library α) (top : String) (layers : ReverseLayers) (ratio : α) (freeze : Bool) :
    Except LayoutError (Design α × CellId) := do
  let scale := if 0 < lib.unitRatio then lib.unitRatio else ratio
  let (state, c) ← lib.importCell ⟨layers, scale, freeze⟩ (lib.cells.length + 2) [] ⟨.empty, []⟩ top
  return (state.design, c)

end RectLayout.Library
