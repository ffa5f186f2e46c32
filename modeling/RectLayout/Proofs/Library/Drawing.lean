import Mathlib.Algebra.Order.Group.Int
import Mathlib.Data.List.Forall2
import Mathlib.Logic.Relation
import RectLayout.Library.Basic
import RectLayout.Proofs.Traverse

/-!
# The drawing of a library

A library can be drawn without a design: a cell draws its rectangles, and then each of its references draws the cell it
names, shifted (`Library.drawFrom?`). There are two readings of the point of a reference. Either the origin of the named
cell comes to it (`LibraryRef.byOrigin`), or the lower left corner of what that cell contains (`LibraryRef.byCorner`).
They agree where every cell that is referred to has its corner at the origin (`Library.drawing?_byOrigin`).
-/

namespace RectLayout

/-- A rectangle of a drawing with the names of the references that lead to it. -/
structure LibraryMark where
  path : List String
  rect : LibraryRect
  deriving DecidableEq, Repr

/-- The rectangle shifted by a vector. -/
def LibraryRect.shift (r : LibraryRect) (dx dy : Int) : LibraryRect :=
  ⟨r.layer, r.datatype, r.x1 + dx, r.y1 + dy, r.x2 + dx, r.y2 + dy⟩

/-- The mark as a reference draws it that shifts its cell by a vector. -/
def LibraryMark.below (m : LibraryMark) (name : String) (v : Int × Int) : LibraryMark :=
  ⟨name :: m.path, m.rect.shift v.1 v.2⟩

/-- The lower left corner of the rectangles of a cell and of the points of its references, the origin if it has neither. -/
def LibraryCell.corner (c : LibraryCell) : Int × Int :=
  (((c.rects.map LibraryRect.x1 ++ c.refs.map LibraryRef.x).min?).getD 0,
    ((c.rects.map LibraryRect.y1 ++ c.refs.map LibraryRef.y).min?).getD 0)

/-- The shift that brings the origin of a cell to the point of a reference. -/
def LibraryRef.byOrigin (r : LibraryRef) (_ : LibraryCell) : Int × Int := (r.x, r.y)

/-- The shift that brings the corner of a cell to the point of a reference. -/
def LibraryRef.byCorner (r : LibraryRef) (c : LibraryCell) : Int × Int := (r.x - c.corner.1, r.y - c.corner.2)

namespace Library

variable {α : Type} {lib : Library α} {place place' : LibraryRef → LibraryCell → Int × Int}

/-- What a reference draws, if the cells are drawn by `draw`. -/
def drawRef? (lib : Library α) (place : LibraryRef → LibraryCell → Int × Int)
    (draw : String → Option (List LibraryMark)) (r : LibraryRef) : Option (List LibraryMark) := do
  let target ← lib.cell? r.cell
  let marks ← draw r.cell
  return marks.map (·.below r.name (place r target))

/-- The drawing of a cell, down to as many levels as there is fuel. A cell that is missing, or deeper, has none. -/
def drawFrom? (lib : Library α) (place : LibraryRef → LibraryCell → Int × Int) : Nat → String → Option (List LibraryMark)
  | 0, _ => none
  | fuel + 1, name => do
    let source ← lib.cell? name
    let drawn ← source.refs.mapM (lib.drawRef? place (drawFrom? lib place fuel))
    return source.rects.map (⟨[], ·⟩) ++ drawn.flatten

/-- The drawing of a cell. A chain of references that does not come back has no more levels than there are cells. -/
def drawing? (lib : Library α) (place : LibraryRef → LibraryCell → Int × Int) (name : String) :
    Option (List LibraryMark) :=
  lib.drawFrom? place lib.cells.length name

/-- The cell named `a` has a reference to `b`. -/
def RefersTo (lib : Library α) (a b : String) : Prop := ∃ source, lib.cell? a = some source ∧ ∃ r ∈ source.refs, r.cell = b

/-- A cell draws its rectangles, and then what its references draw. -/
theorem drawFrom?_succ {name : String} {source : LibraryCell} (hsource : lib.cell? name = some source) (fuel : Nat) :
    lib.drawFrom? place (fuel + 1) name = (source.refs.mapM (lib.drawRef? place (lib.drawFrom? place fuel))).map
      fun drawn => source.rects.map (⟨[], ·⟩) ++ drawn.flatten := by
  rw [drawFrom?, hsource]
  cases h : source.refs.mapM (lib.drawRef? place (lib.drawFrom? place fuel)) <;> simp [h]

/-- Drawings agree if every cell that is referred to is shifted the same. -/
theorem drawFrom?_congr {fuel : Nat} {name : String} (h : ∀ r target, Relation.TransGen lib.RefersTo name r.cell →
    lib.cell? r.cell = some target → place r target = place' r target) :
    lib.drawFrom? place fuel name = lib.drawFrom? place' fuel name := by
  induction fuel generalizing name with
  | zero => rfl
  | succ fuel ih =>
    cases hsource : lib.cell? name with
    | none => simp [drawFrom?, hsource]
    | some source =>
      rw [drawFrom?_succ hsource, drawFrom?_succ hsource]
      congr 1
      refine mapM_congr fun r hr => ?_
      have hrefers : lib.RefersTo name r.cell := ⟨source, hsource, r, hr, rfl⟩
      have hdraw := ih fun r' target hreach => h r' target (hreach.head hrefers)
      unfold drawRef?
      cases htarget : lib.cell? r.cell with
      | none => rfl
      | some target => simp only [Option.bind_eq_bind, Option.bind_some, hdraw, h r target (.single hrefers) htarget]

/-- If every cell that is referred to has its corner at the origin, the two readings of a reference agree. -/
theorem drawing?_byOrigin {top : String} (h : ∀ name, Relation.TransGen lib.RefersTo top name →
    ∀ source, lib.cell? name = some source → source.corner = (0, 0)) :
    lib.drawing? LibraryRef.byOrigin top = lib.drawing? LibraryRef.byCorner top := by
  refine drawFrom?_congr fun r target hreach htarget => ?_
  rw [LibraryRef.byOrigin, LibraryRef.byCorner, h _ hreach target htarget, sub_zero, sub_zero]

end Library

end RectLayout
