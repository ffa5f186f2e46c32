import RectLayout.Design.Basic
import RectLayout.Text.EditDistance

/-!
# Design files

A design file lists cells with their polygons, instances and constraints, and says which cell is the top one. Objects
refer to each other by name. `DesignFile.build` resolves the names: cells may be used before they are listed; a
constraint speaks of objects of its own entry, or of the cell itself under its name. Entries of the same name all fill
the first cell of that name.
-/

namespace RectLayout

structure PolygonEntry (α : Type) where
  name : String
  layer : String
  box : Option (Box α)
  deriving DecidableEq, Repr

structure InstanceEntry where
  name : String
  cell : String
  deriving DecidableEq, Repr

structure ConstraintEntry where
  subject : String
  clause : String
  object : Option String
  deriving DecidableEq, Repr

structure CellEntry (α : Type) where
  name : String
  polygons : List (PolygonEntry α)
  instances : List InstanceEntry
  constraints : List ConstraintEntry
  deriving DecidableEq, Repr

structure DesignFile (α : Type) where
  top : String
  cells : List (CellEntry α)
  deriving DecidableEq, Repr

namespace DesignFile

variable {α : Type}

/-- The names that constraints of an entry can use, the last declared first. -/
abbrev Scope := List (String × Node)

/-- The greatest edit distance of a suggestion. -/
def suggestionDistance : Nat := 2

/-- The object of a name in an entry. -/
def Scope.resolve (scope : Scope) (entryName name : String) : Except LayoutError Node :=
  match scope.lookup name with
  | some n => .ok n
  | none => .error (.undefinedName name s!"cell '{entryName}'"
      (Text.similar (scope.map Prod.fst) name suggestionDistance))

/-- The error of a name that no cell has. -/
def undefinedCell (f : DesignFile α) (name : String) : LayoutError :=
  .undefinedName name "cell list" (Text.similar (f.cells.map CellEntry.name) name suggestionDistance)

/-- The design with a polygon of an entry, and the scope with its name. -/
def addPolygonEntry (c : CellId) : Design α × Scope → PolygonEntry α → Except LayoutError (Design α × Scope)
  | (d, scope), p => do
    let (d, id) ← d.addPolygon c p.name p.layer
    let d ← match p.box with
      | some box => d.setBox (.polygon id) box
      | none => pure d
    return (d, (p.name, .polygon id) :: scope)

/-- The design with an instance of an entry, and the scope with its name. -/
def addInstanceEntry (f : DesignFile α) (c : CellId) :
    Design α × Scope → InstanceEntry → Except LayoutError (Design α × Scope)
  | (d, scope), i => do
    match d.cellNamed? i.cell with
    | none => .error (f.undefinedCell i.cell)
    | some template =>
      let (d, id) ← d.addInstance c i.name template
      return (d, (i.name, .inst id) :: scope)

/-- The design with a constraint of an entry. -/
def addConstraintEntry (entryName : String) (c : CellId) (scope : Scope) (d : Design α) (k : ConstraintEntry) :
    Except LayoutError (Design α) := do
  let subject ← scope.resolve entryName k.subject
  let object ← k.object.mapM (scope.resolve entryName)
  d.constrain c subject k.clause object

/-- The design with the first cell of the entry's name filled. -/
def addEntry (f : DesignFile α) (d : Design α) (e : CellEntry α) : Except LayoutError (Design α) := do
  match d.cellNamed? e.name with
  | none => .error (f.undefinedCell e.name)
  | some c =>
    let (d, scope) ← e.polygons.foldlM (addPolygonEntry c) (d, [(e.name, .cell c)])
    let (d, scope) ← e.instances.foldlM (addInstanceEntry f c) (d, scope)
    e.constraints.foldlM (addConstraintEntry e.name c scope) d

/-- The design that a file describes, and its top cell. -/
def build (f : DesignFile α) : Except LayoutError (Design α × CellId) := do
  let d ← f.cells.foldlM (addEntry f) (f.cells.foldl (fun d e => (d.addCell e.name).1) .empty)
  match d.cellNamed? f.top with
  | some c => return (d, c)
  | none => .error (f.undefinedCell f.top)

end DesignFile

end RectLayout
