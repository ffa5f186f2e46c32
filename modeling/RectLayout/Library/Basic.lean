/-!
# Libraries

A library is the exchange form of a design: cells of rectangles on numbered layers, with integer coordinates in units
of which `unitRatio` make one unit of length, and of references that place other cells by name.
-/

namespace RectLayout

structure LibraryRect where
  layer : Int
  datatype : Int
  x1 : Int
  y1 : Int
  x2 : Int
  y2 : Int
  deriving DecidableEq, Repr

/-- The placement of a cell at a point. -/
structure LibraryRef where
  name : String
  cell : String
  x : Int
  y : Int
  deriving DecidableEq, Repr

structure LibraryCell where
  name : String
  rects : List LibraryRect
  refs : List LibraryRef
  deriving DecidableEq, Repr

structure Library (α : Type) where
  unitRatio : α
  cells : List LibraryCell
  deriving DecidableEq, Repr

/-- The first cell with a name. -/
def Library.cell? {α : Type} (lib : Library α) (name : String) : Option LibraryCell :=
  lib.cells.find? fun c => c.name == name

end RectLayout
