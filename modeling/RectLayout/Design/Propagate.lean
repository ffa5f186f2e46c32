import RectLayout.Design.Basic

/-!
# Propagation

`propagate` fits the boxes below a cell to their content, templates before the cells that draw them: an instance keeps
its lower left corner and takes the size of its template's content, a cell takes the box around its objects. Frozen
cells stay as they are and are not entered.
-/

namespace RectLayout.Design

variable {α : Type} [Scalar α]

/-- The design in which a placed instance has the size of its template's content. -/
def refitInstance (d : Design α) (i : InstanceId) : Design α :=
  match d.instance? i with
  | none => d
  | some inst =>
    match inst.box, d.contentBox? inst.template with
    | some placed, some content => d.writeBox (.inst i) (some (content.movedTo placed.x1 placed.y1))
    | _, _ => d

/-- The design in which a cell has the box around its objects, if some of them have boxes. -/
def refitBox (d : Design α) (c : CellId) : Design α :=
  match Box.tight? (d.childBoxes c) with
  | some box => d.writeBox (.cell c) (some box)
  | none => d

/-- The design in which the instances of a cell, and then the cell, are fitted to their content. -/
def refit (d : Design α) (c : CellId) : Design α :=
  match d.cell? c with
  | none => d
  | some cell => (cell.instances.foldl refitInstance d).refitBox c

/-- The active cells that are reached from a cell through active cells, templates first. -/
def activePostorder (d : Design α) (c : CellId) : List CellId :=
  if d.isActive c then Walk.postorder d.activeTemplates (d.cells.size + 1) [] c else []

/-- The design in which all active cells below `root` are fitted to their content. -/
def propagate (d : Design α) (root : CellId) : Design α := (d.activePostorder root).foldl refit d

end RectLayout.Design
