import RectLayout.Design.Basic

/-!
# Frozen cells

A frozen cell keeps the box of its content and cannot be edited or solved for; it is drawn as it is. All its objects
have boxes.
-/

namespace RectLayout.Design

variable {α : Type} [Scalar α]

/-- The design in which a cell is frozen, and the box it is frozen with: the one around its objects, or its own box if
it has none. A cell that is frozen already stays as it is. -/
def freeze (d : Design α) (c : CellId) : Except LayoutError (Design α × Box α) := do
  let cell ← d.getCell c
  match cell.frozen with
  | some box => return (d, box)
  | none =>
    match (d.children c).find? fun n => (d.box? n).isNone with
    | some n => .error (.freezePrecondition cell.name (d.name n))
    | none =>
      match (Box.tight? (d.childBoxes c)).or cell.box with
      | none => .error (.freezePrecondition cell.name cell.name)
      | some box => return (d.modifyCell c fun cell => { cell with box := some box, frozen := some box }, box)

/-- The design in which a cell is not frozen. It keeps its box. -/
def unfreeze (d : Design α) (c : CellId) : Except LayoutError (Design α) := do
  let _ ← d.getCell c
  return d.modifyCell c fun cell => { cell with frozen := none }

end RectLayout.Design
