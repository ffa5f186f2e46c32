import RectLayout.Box
import RectLayout.Design.Error

/-!
# Designs

A design holds cells, polygons and instances, each under a handle that stays valid. A cell lists its polygons, its
instances and the constraints on them; an instance refers to the cell that it draws, its template. Many instances may
share a template, so a design is a graph of cells. No edit makes a cell contain itself, and none changes a frozen
cell.

* `Design.addCell`, `addPolygon`, `addInstance`, `constrain`, `setBox`: the edits;
* `Design.box?`, `contentBox?`: the boxes of objects and of the content of cells;
* `Design.reachable`: the cells that a cell draws, itself first.
-/

namespace RectLayout

/-! ## Handles -/

structure CellId where
  index : Nat
  deriving DecidableEq, Repr

structure PolygonId where
  index : Nat
  deriving DecidableEq, Repr

structure InstanceId where
  index : Nat
  deriving DecidableEq, Repr

/-- An object that can have a box. -/
inductive Node where
  | cell (c : CellId)
  | polygon (p : PolygonId)
  | inst (i : InstanceId)
  deriving DecidableEq, Repr

/-! ## Objects -/

structure Polygon (α : Type) where
  name : String
  layer : String
  box : Option (Box α)
  parent : CellId
  deriving DecidableEq, Repr

structure Instance (α : Type) where
  name : String
  template : CellId
  box : Option (Box α)
  parent : CellId
  deriving DecidableEq, Repr

/-- Clauses about a subject and perhaps an object, as text. -/
structure Constraint where
  subject : Node
  clause : String
  object : Option Node
  deriving DecidableEq, Repr

structure Cell (α : Type) where
  name : String
  polygons : List PolygonId
  instances : List InstanceId
  constraints : List Constraint
  box : Option (Box α)
  /-- The box of the content at the time of freezing, if the cell is frozen. -/
  frozen : Option (Box α)
  deriving DecidableEq, Repr

namespace Cell

variable {α : Type}

/-- The cell without content. -/
def ofName (name : String) : Cell α := ⟨name, [], [], [], none, none⟩

def isFrozen (c : Cell α) : Bool := c.frozen.isSome

/-- A leaf has neither polygons nor instances. -/
def isLeaf (c : Cell α) : Bool := c.polygons.isEmpty && c.instances.isEmpty

end Cell

structure Design (α : Type) where
  cells : Array (Cell α)
  polygons : Array (Polygon α)
  instances : Array (Instance α)
  deriving DecidableEq, Repr

/-! ## Walks over a graph -/

namespace Walk

variable {ν : Type} [BEq ν]

/-- The nodes seen after a visit of `v`: those seen before, and what `v` leads to, each node before the nodes that it
leads to. No path of new nodes is longer than the fuel. -/
def preorder (next : ν → List ν) : Nat → List ν → ν → List ν
  | 0, seen, _ => seen
  | fuel + 1, seen, v => if seen.contains v then seen else (next v).foldl (preorder next fuel) (seen ++ [v])

/-- The same with each node after the nodes that it leads to. -/
def postorder (next : ν → List ν) : Nat → List ν → ν → List ν
  | 0, seen, _ => seen
  | fuel + 1, seen, v => if seen.contains v then seen else (next v).foldl (postorder next fuel) seen ++ [v]

end Walk

namespace Design

variable {α : Type}

/-! ## Look-up -/

/-- The design without objects. -/
def empty : Design α := ⟨#[], #[], #[]⟩

def cell? (d : Design α) (c : CellId) : Option (Cell α) := d.cells[c.index]?

def polygon? (d : Design α) (p : PolygonId) : Option (Polygon α) := d.polygons[p.index]?

def instance? (d : Design α) (i : InstanceId) : Option (Instance α) := d.instances[i.index]?

/-- The handles of all cells, in order of creation. -/
def cellIds (d : Design α) : List CellId := (List.range d.cells.size).map CellId.mk

/-- The first cell with a name. -/
def cellNamed? (d : Design α) (name : String) : Option CellId :=
  (d.cells.findIdx? fun c => c.name == name).map CellId.mk

/-- The name of an object, a question mark if the handle names nothing. -/
def name (d : Design α) (n : Node) : String :=
  (match n with
    | .cell c => (d.cell? c).map Cell.name
    | .polygon p => (d.polygon? p).map Polygon.name
    | .inst i => (d.instance? i).map Instance.name).getD "?"

/-- The cell to which an object belongs; a cell belongs to itself. -/
def owner? (d : Design α) (n : Node) : Option CellId :=
  match n with
  | .cell c => (d.cell? c).map fun _ => c
  | .polygon p => (d.polygon? p).map Polygon.parent
  | .inst i => (d.instance? i).map Instance.parent

/-- The box of an object. A frozen cell has the box with which it was frozen. -/
def box? (d : Design α) (n : Node) : Option (Box α) :=
  match n with
  | .cell c => (d.cell? c).bind fun c => c.frozen.or c.box
  | .polygon p => (d.polygon? p).bind Polygon.box
  | .inst i => (d.instance? i).bind Instance.box

/-- The objects of a cell, polygons first. -/
def children (d : Design α) (c : CellId) : List Node :=
  match d.cell? c with
  | some c => c.polygons.map Node.polygon ++ c.instances.map Node.inst
  | none => []

/-- The templates of the instances of a cell. -/
def templates (d : Design α) (c : CellId) : List CellId :=
  match d.cell? c with
  | some c => c.instances.filterMap fun i => (d.instance? i).map Instance.template
  | none => []

/-- The cells that a cell draws, itself first. -/
def reachable (d : Design α) (c : CellId) : List CellId := Walk.preorder d.templates (d.cells.size + 1) [] c

/-- A cell that is to be solved for: it exists and is not frozen. -/
def isActive (d : Design α) (c : CellId) : Bool :=
  match d.cell? c with
  | some c => !c.isFrozen
  | none => false

/-- The active templates of the instances of a cell. -/
def activeTemplates (d : Design α) (c : CellId) : List CellId := (d.templates c).filter d.isActive

/-- The boxes of the objects of a cell that have one. -/
def childBoxes (d : Design α) (c : CellId) : List (Box α) := (d.children c).filterMap d.box?

/-- The box around the content of a cell. A frozen cell keeps the one it was frozen with, and a cell without bound
objects has its own box. -/
def contentBox? [Scalar α] (d : Design α) (c : CellId) : Option (Box α) :=
  match d.cell? c with
  | none => none
  | some cell =>
    match cell.frozen with
    | some box => some box
    | none => (Box.tight? (d.childBoxes c)).or cell.box

/-! ## Edits -/

def modifyCell (d : Design α) (c : CellId) (f : Cell α → Cell α) : Design α :=
  { d with cells := d.cells.modify c.index f }

/-- The design in which an object has the given box. -/
def writeBox (d : Design α) (n : Node) (box : Option (Box α)) : Design α :=
  match n with
  | .cell c => d.modifyCell c fun cell => { cell with box }
  | .polygon p => { d with polygons := d.polygons.modify p.index fun polygon => { polygon with box } }
  | .inst i => { d with instances := d.instances.modify i.index fun inst => { inst with box } }

/-- The cell of a handle. -/
def getCell (d : Design α) (c : CellId) : Except LayoutError (Cell α) :=
  match d.cell? c with
  | some cell => .ok cell
  | none => .error .invalidHandle

/-- The cell of a handle, if it may be changed. -/
def getUnfrozen (d : Design α) (c : CellId) : Except LayoutError (Cell α) := do
  let cell ← d.getCell c
  if cell.isFrozen then .error (.frozen cell.name) else .ok cell

/-- The owner of an object, if the object exists. -/
def getOwner (d : Design α) (n : Node) : Except LayoutError CellId :=
  match d.owner? n with
  | some c => .ok c
  | none => .error .invalidHandle

/-- The design with one more cell. -/
def addCell (d : Design α) (name : String) : Design α × CellId :=
  ({ d with cells := d.cells.push (.ofName name) }, ⟨d.cells.size⟩)

/-- The design with one more polygon, without a box, in a cell. -/
def addPolygon (d : Design α) (c : CellId) (name layer : String) : Except LayoutError (Design α × PolygonId) := do
  let _ ← d.getUnfrozen c
  let p : PolygonId := ⟨d.polygons.size⟩
  let d := { d with polygons := d.polygons.push ⟨name, layer, none, c⟩ }
  return (d.modifyCell c fun cell => { cell with polygons := cell.polygons ++ [p] }, p)

/-- The design with one more instance, without a box, in a cell. A template that draws the cell is refused. -/
def addInstance (d : Design α) (c : CellId) (name : String) (template : CellId) :
    Except LayoutError (Design α × InstanceId) := do
  let cell ← d.getUnfrozen c
  let drawn ← d.getCell template
  if (d.reachable template).contains c then .error (.recursiveInstance cell.name drawn.name)
  else
    let i : InstanceId := ⟨d.instances.size⟩
    let d := { d with instances := d.instances.push ⟨name, template, none, c⟩ }
    return (d.modifyCell c fun cell => { cell with instances := cell.instances ++ [i] }, i)

/-- The design with one more constraint in a cell. The text of the clause is not looked at. -/
def constrain (d : Design α) (c : CellId) (subject : Node) (clause : String) (object : Option Node) :
    Except LayoutError (Design α) := do
  let _ ← d.getUnfrozen c
  let _ ← d.getOwner subject
  let _ ← object.mapM d.getOwner
  return d.modifyCell c fun cell => { cell with constraints := cell.constraints ++ [⟨subject, clause, object⟩] }

/-- The design in which an object has the given box. -/
def setBox (d : Design α) (n : Node) (box : Box α) : Except LayoutError (Design α) := do
  let c ← d.getOwner n
  let _ ← d.getUnfrozen c
  return d.writeBox n (some box)

end Design

end RectLayout
