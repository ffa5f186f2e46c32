import RectLayout.Design.File
import RectLayout.Library.Layers
import RectLayout.Scalar.Double
import RectLayout.Solve.Config
import RectLayout.Toml.Decode
import RectLayout.Toml.Document

/-!
# Input files

Three kinds of files are read, all in TOML: settings of a solve, layer tables and designs. In each of them a name that
means nothing is ignored, and a value of the wrong kind makes the file unreadable.
-/

namespace RectLayout

open Toml

/-! ## Settings -/

def CorrectionConfig.ofValue? (v : Value) : Option (CorrectionConfig Float) := do
  let f ← v.fields? ["window", "top_k", "probe_delta", "change_threshold", "max_rounds", "tolerance"]
  let d : CorrectionConfig Float := .standard
  return {
    window := ← defaulted f "window" Value.int64? d.window
    topK := ← defaulted f "top_k" Value.count? d.topK
    probeDelta := ← defaulted f "probe_delta" Value.number? d.probeDelta
    changeThreshold := ← defaulted f "change_threshold" Value.number? d.changeThreshold
    maxRounds := ← defaulted f "max_rounds" Value.count? d.maxRounds
    tolerance := ← defaulted f "tolerance" Value.number? d.tolerance }

/-- The settings of a file; those that it does not name are the standard ones. -/
def SolveConfig.ofToml? (text : String) : Option (SolveConfig Float) := do
  let entries ← Toml.parse? text
  let f := (entries.lookup ·)
  let d : SolveConfig Float := .standard
  return {
    epsilon := ← defaulted f "epsilon" Value.number? d.epsilon
    defaultSizing := ← defaulted f "default_sizing" Value.boolean? d.defaultSizing
    defaultMinSize := ← defaulted f "default_min_size" Value.number? d.defaultMinSize
    stagger := ← defaulted f "stagger" Value.number? d.stagger
    correction := ← defaulted f "correction" CorrectionConfig.ofValue? d.correction }

/-! ## Layer tables -/

/-- A layer and a datatype in an array. -/
def LayerSpec.ofValue? (v : Value) : Option LayerSpec := do
  match ← v.items? with
  | layer :: datatype :: _ => return ⟨← layer.int32?, ← datatype.int32?⟩
  | _ => none

/-- The layers that a file lists in its table `layers`. -/
def LayerTable.ofToml? (text : String) : Option LayerTable := do
  let entries ← Toml.parse? text
  match entries.lookup "layers" with
  | none => return .empty
  | some (.table _ layers) =>
    layers.foldlM (fun t (name, v) => t.insert name <$> LayerSpec.ofValue? v) .empty
  | some _ => none

/-! ## Designs -/

/-- Four coordinates in an array. -/
def Box.ofValue? (v : Value) : Option (Box Float) := do
  match ← v.items? with
  | x₁ :: y₁ :: x₂ :: y₂ :: _ => return ⟨← x₁.number?, ← y₁.number?, ← x₂.number?, ← y₂.number?⟩
  | _ => none

def PolygonEntry.ofValue? (v : Value) : Option (PolygonEntry Float) := do
  let f ← v.fields? ["name", "layer", "bbox"]
  return {
    name := ← required f "name" Value.string?
    layer := ← required f "layer" Value.string?
    box := ← optional f "bbox" Box.ofValue? }

def InstanceEntry.ofValue? (v : Value) : Option InstanceEntry := do
  let f ← v.fields? ["name", "cell"]
  return {
    name := ← required f "name" Value.string?
    cell := ← required f "cell" Value.string? }

def ConstraintEntry.ofValue? (v : Value) : Option ConstraintEntry := do
  let f ← v.fields? ["subject", "clause", "object"]
  return {
    subject := ← required f "subject" Value.string?
    clause := ← required f "clause" Value.string?
    object := ← optional f "object" Value.string? }

def CellEntry.ofValue? (v : Value) : Option (CellEntry Float) := do
  let f ← v.fields? ["name", "polygons", "instances", "constraints"]
  return {
    name := ← required f "name" Value.string?
    polygons := ← defaulted f "polygons" (Value.list? PolygonEntry.ofValue?) []
    instances := ← defaulted f "instances" (Value.list? InstanceEntry.ofValue?) []
    constraints := ← defaulted f "constraints" (Value.list? ConstraintEntry.ofValue?) [] }

/-- The design that a file lists. -/
def DesignFile.ofToml? (text : String) : Option (DesignFile Float) := do
  let entries ← Toml.parse? text
  let f := (entries.lookup ·)
  return {
    top := ← required f "top" Value.string?
    cells := ← defaulted f "cell" (Value.list? CellEntry.ofValue?) [] }

end RectLayout
