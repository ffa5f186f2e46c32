import RectLayout.Scalar

/-!
# Rows

A row is an affine function of numbered unknowns, with a label that says where it comes from. `Row.ofTerms` brings a
list of terms into normal form: one term for each unknown, in increasing order, none of them zero.
-/

namespace RectLayout

/-- The value of unknown `i` at a point; a point has the value zero beyond its end. -/
def valueAt {α : Type} [Zero α] (x : Array α) (i : Nat) : α := x.getD i 0

/-- The sum of `coefficient * unknown` over the terms, plus the constant. -/
structure Row (α : Type) where
  /-- Unknowns with their coefficients, in increasing order of the unknowns. -/
  terms : Array (Nat × α)
  constant : α
  label : String
  deriving DecidableEq, Repr, Inhabited

namespace Row

variable {α : Type} [Scalar α]

/-- The terms with `c` times unknown `i` added, in order. -/
def addTerm (i : Nat) (c : α) : List (Nat × α) → List (Nat × α)
  | [] => [(i, c)]
  | (k, d) :: r =>
    if i < k then (i, c) :: (k, d) :: r
    else if i = k then (k, d + c) :: r
    else (k, d) :: addTerm i c r

/-- The terms of a list, those of the same unknown added up. -/
def merge (terms : List (Nat × α)) : List (Nat × α) := terms.foldl (fun acc t => addTerm t.1 t.2 acc) []

/-- The row with the given terms, in normal form. -/
def ofTerms (terms : List (Nat × α)) (constant : α) (label : String) : Row α :=
  ⟨((merge terms).filter fun t => t.2 != 0).toArray, constant, label⟩

/-- The value of a row at a point. -/
def eval (r : Row α) (x : Array α) : α := r.terms.foldl (fun s t => s + t.2 * valueAt x t.1) 0 + r.constant

/-- The coefficient of unknown `i` among the terms from place `lo` up to, but not with, place `hi`, by halving. -/
def search (terms : Array (Nat × α)) (i lo hi : Nat) : Option α :=
  if lo < hi then
    let mid := (lo + hi) / 2
    match terms[mid]? with
    | none => none
    | some (k, c) =>
      if k = i then some c
      else if k < i then search terms i (mid + 1) hi
      else search terms i lo mid
  else none
termination_by hi - lo

/-- The coefficient of unknown `i`, zero if it does not occur. -/
def coefficient (r : Row α) (i : Nat) : α := (search r.terms i 0 r.terms.size).getD 0

/-- A row without unknowns is decided by its constant. -/
def isConstant (r : Row α) : Bool := r.terms.isEmpty

end Row

end RectLayout
