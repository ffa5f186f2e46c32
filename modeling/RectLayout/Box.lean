import RectLayout.Scalar

/-!
# Boxes

A box is given by its lower left and upper right corner. The four entries may be of any type, so that a box of
scalars and a box of unknowns have one shape.

* `Box.union`, `Box.tight?`: the least box around others;
* `Box.translate`, `Box.movedTo`: the same size elsewhere.
-/

namespace RectLayout

/-- The direction of a coordinate. -/
inductive Axis where
  | x
  | y
  deriving DecidableEq, Repr

/-- Which end of a box a coordinate belongs to. -/
inductive Corner where
  | min
  | max
  deriving DecidableEq, Repr

/-- A rectangle with sides parallel to the axes. -/
structure Box (β : Type) where
  x1 : β
  y1 : β
  x2 : β
  y2 : β
  deriving DecidableEq, Repr

namespace Box

/-- The coordinate of a box on an axis at a corner. -/
def get {β : Type} (b : Box β) : Axis → Corner → β
  | .x, .min => b.x1
  | .y, .min => b.y1
  | .x, .max => b.x2
  | .y, .max => b.y2

/-- The box with every coordinate replaced by its image. -/
def map {β γ : Type} (f : β → γ) (b : Box β) : Box γ := ⟨f b.x1, f b.y1, f b.x2, f b.y2⟩

/-- The four coordinates, lower left corner first. -/
def toList {β : Type} (b : Box β) : List β := [b.x1, b.y1, b.x2, b.y2]

variable {α : Type} [Scalar α]

def width (b : Box α) : α := b.x2 - b.x1

def height (b : Box α) : α := b.y2 - b.y1

def area (b : Box α) : α := b.width * b.height

/-- A valid box has a positive width and a positive height. -/
def isValid (b : Box α) : Bool := b.x1 < b.x2 && b.y1 < b.y2

/-- The least box around two boxes. -/
def union (a b : Box α) : Box α := ⟨Min.min a.x1 b.x1, Min.min a.y1 b.y1, Max.max a.x2 b.x2, Max.max a.y2 b.y2⟩

/-- The box shifted by a vector. -/
def translate (b : Box α) (dx dy : α) : Box α := ⟨b.x1 + dx, b.y1 + dy, b.x2 + dx, b.y2 + dy⟩

/-- The box of the same size with its lower left corner at a point. -/
def movedTo (b : Box α) (x y : α) : Box α := ⟨x, y, x + b.width, y + b.height⟩

/-- The least box around all boxes of a list; an empty list has none. -/
def tight? : List (Box α) → Option (Box α)
  | [] => none
  | b :: bs => some (bs.foldl union b)

end Box

end RectLayout
