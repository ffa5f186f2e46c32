/-!
# Layer tables

A layer table gives names of layers their numbers in a library. It is kept in the order of the names. `reverse` turns
it around; of several names for one pair of numbers, the last in order is the name of the pair.
-/

namespace RectLayout

/-- The numbers of a layer in a library. -/
structure LayerSpec where
  layer : Int
  datatype : Int
  deriving DecidableEq, Repr

/-- Layers first, then datatypes. -/
def LayerSpec.before (a b : LayerSpec) : Bool :=
  decide (a.layer < b.layer) || (a.layer == b.layer && decide (a.datatype < b.datatype))

/-- A list in the order of its keys with `v` at key `k`. -/
def insertSorted {κ ω : Type} (before : κ → κ → Bool) (k : κ) (v : ω) : List (κ × ω) → List (κ × ω)
  | [] => [(k, v)]
  | (l, w) :: r =>
    if before k l then (k, v) :: (l, w) :: r
    else if before l k then (l, w) :: insertSorted before k v r
    else (k, v) :: r

structure LayerTable where
  /-- Names with their numbers, in the order of the names. -/
  entries : List (String × LayerSpec)
  deriving DecidableEq, Repr

/-- Numbers of layers with their names, in the order of the numbers. -/
abbrev ReverseLayers := List (LayerSpec × String)

namespace LayerTable

def empty : LayerTable := ⟨[]⟩

/-- The table with a name added or given other numbers. -/
def insert (t : LayerTable) (name : String) (spec : LayerSpec) : LayerTable :=
  ⟨insertSorted (fun a b => decide (a < b)) name spec t.entries⟩

/-- The numbers of a name. -/
def get? (t : LayerTable) (name : String) : Option LayerSpec := t.entries.lookup name

/-- The table from numbers to names. -/
def reverse (t : LayerTable) : ReverseLayers :=
  t.entries.foldl (fun r (name, spec) => insertSorted LayerSpec.before spec name r) []

end LayerTable

end RectLayout
