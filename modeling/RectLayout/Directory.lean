/-!
# Directories

A directory holds texts under paths. `Directory.read?` finds the text to which a path leads, step by step from the
directory itself: a step of one point stays, a step of two points goes back, and every other step must lead from a
directory to something that it holds.
-/

namespace RectLayout

/-- Texts with the steps of their paths. Of two texts with the same path the last is the one that is held. -/
structure Directory where
  files : List (List String × String)
  deriving DecidableEq, Repr

namespace Directory

/-- A step that stays where it is. -/
def isIdle (step : String) : Bool := step.isEmpty || step == "."

/-- The directory that holds texts under names. -/
def ofList (files : List (String × String)) : Directory :=
  ⟨files.map fun (name, text) => ((name.splitOn "/").filter fun step => !isIdle step, text)⟩

/-- Whether steps lead to a directory: there is something below them. -/
def isDirectory (d : Directory) (place : List String) : Bool :=
  place.isEmpty || d.files.any fun f => decide (place.length < f.1.length) && place.isPrefixOf f.1

/-- The place to which steps lead from another place. No step leads out of the directory. -/
def walk (d : Directory) (place : List String) : List String → Option (List String)
  | [] => some place
  | step :: steps =>
    if !d.isDirectory place then none
    else if isIdle step then d.walk place steps
    else if step == ".." then if place.isEmpty then none else d.walk place.dropLast steps
    else d.walk (place ++ [step]) steps

/-- The text to which a path leads. -/
def read? (d : Directory) (path : String) : Option String :=
  if path.startsWith "/" then none
  else (d.walk [] (path.splitOn "/")).bind fun place => d.files.reverse.lookup place

end Directory

end RectLayout
