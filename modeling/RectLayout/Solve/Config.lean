import RectLayout.Scalar

/-!
# Settings of a solve
-/

namespace RectLayout

/-- How a solution is moved to the integer grid. -/
structure CorrectionConfig (α : Type) where
  /-- The search tries offsets of at most this absolute value. -/
  window : Int
  /-- The number of unknowns that a round of the search moves. -/
  topK : Nat
  /-- The step by which the influence of an unknown on a row is probed. -/
  probeDelta : α
  /-- The least change of a row at which an unknown counts as having influence. -/
  changeThreshold : α
  maxRounds : Nat
  /-- The violation up to which a row counts as satisfied. -/
  tolerance : α
  deriving DecidableEq, Repr

structure SolveConfig (α : Type) where
  /-- The least width and height of a solved box. -/
  epsilon : α
  /-- Whether polygons that no constraint names get a least size and a place beside the origin. -/
  defaultSizing : Bool
  /-- The least width and height that `defaultSizing` gives. -/
  defaultMinSize : α
  /-- The diagonal distance between consecutive boxes of the initial point. -/
  stagger : α
  correction : CorrectionConfig α
  deriving DecidableEq, Repr

variable {α : Type} [Scalar α]

def CorrectionConfig.standard : CorrectionConfig α where
  window := 3
  topK := 20
  probeDelta := 1
  changeThreshold := Scalar.ofRat (1 / 1000000)
  maxRounds := 4
  tolerance := Scalar.ofRat (1 / 1000000)

def SolveConfig.standard : SolveConfig α where
  epsilon := Scalar.ofRat (1 / 100)
  defaultSizing := false
  defaultMinSize := Scalar.ofNat 10
  stagger := Scalar.ofNat 30
  correction := .standard

end RectLayout
