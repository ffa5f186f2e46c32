import RectLayout.Clause.Error

/-!
# Layout errors

Why an edit, a solve or a conversion of a design is refused.
-/

namespace RectLayout

inductive LayoutError where
  | clause (e : ClauseError)
  /-- The constraints have no solution. -/
  | unsatisfiable (message : String)
  /-- A cell cannot be frozen while `object` in it, or the cell itself, has no box. -/
  | freezePrecondition (cell object : String)
  | frozen (cell : String)
  /-- A cell would contain itself, directly or through other cells. -/
  | recursiveInstance (cell template : String)
  | undefinedName (name scope : String) (suggestions : List String)
  /-- A clause speaks of an object that is not solved for and has no box. -/
  | unboundReference (name clause : String)
  /-- A handle that names nothing in the design. -/
  | invalidHandle
  | unknownLayer (layer : String)
  /-- A cell that a library refers to but does not hold. -/
  | missingCell (name : String)
  deriving DecidableEq, Repr

def LayoutError.message : LayoutError → String
  | clause e => s!"parse error: {e.message}"
  | unsatisfiable message => s!"constraints unsatisfiable: {message}"
  | freezePrecondition cell object => s!"cannot freeze cell '{cell}': '{object}' is unbound"
  | frozen cell => s!"cell '{cell}' is frozen"
  | recursiveInstance cell template => s!"instancing '{template}' inside '{cell}' would make the hierarchy recursive"
  | undefinedName name scope _ => s!"undefined name '{name}' in {scope}"
  | unboundReference name text => s!"'{name}' in clause '{text}' is not part of this solve and has no box"
  | invalidHandle => "stale or foreign handle"
  | unknownLayer layer => s!"layer '{layer}' is not in the layer table"
  | missingCell name => s!"cell '{name}' not found in library"

end RectLayout
