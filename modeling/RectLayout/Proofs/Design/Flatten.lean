import Mathlib.Tactic.Ring
import RectLayout.Design.Flatten
import RectLayout.Proofs.Box
import RectLayout.Proofs.Design.WellFormed

/-!
# Drawings

A chain of templates never comes back to a cell, so from a cell to one of its templates the number of cells that are
reached gets smaller (`length_reachable_lt`), which allows induction along templates (`WellFormed.template_induction`),
and it is never more than one above the number of cells (`length_reachable_le`), for a cell of the design not even that
(`length_reachable_le_size`). Fuel for that many levels is enough for a drawing, and more of it changes nothing
(`flattenFrom_fuel`).

A drawing is made of what the polygons of the cell and its instances draw (`flattenFrom_succ`). Offset and path only move
what a cell draws on its own (`flattenFrom_eq_map`).
-/

namespace RectLayout

/-- A rectangle as it is drawn at an offset below a path. -/
def FlatRect.moved (path : List String) (dx dy : Rat) (r : FlatRect Rat) : FlatRect Rat :=
  ⟨path ++ r.path, r.layer, r.box.translate dx dy⟩

theorem FlatRect.moved_moved (r : FlatRect Rat) (path path' : List String) (dx dy dx' dy' : Rat) :
    (r.moved path dx dy).moved path' dx' dy' = r.moved (path' ++ path) (dx + dx') (dy + dy') := by
  simp only [moved, Box.translate_translate, List.append_assoc]

namespace Design

open Walk

variable {α : Type} {d : Design α} {c t : CellId}

/-! ## How far down a cell reaches -/

theorem nodup_reachable (d : Design α) (c : CellId) : (d.reachable c).Nodup := nodup_preorder _ List.nodup_nil c

theorem self_mem_reachable (d : Design α) (c : CellId) : c ∈ d.reachable c := mem_reachable_iff.mpr .refl

theorem length_reachable_pos (d : Design α) (c : CellId) : 0 < (d.reachable c).length :=
  List.length_pos_of_mem (self_mem_reachable d c)

/-- The templates of what a cell reaches are reached. -/
theorem template_mem_reachable {k : CellId} (hk : k ∈ d.reachable c) (ht : t ∈ d.templates k) : t ∈ d.reachable c := by
  have hr : Reaches d.templates c k := mem_reachable_iff.mp hk
  exact mem_reachable_iff.mpr (hr.tail ht)

/-- What a template reaches, its cell reaches. -/
theorem reachable_subset (ht : t ∈ d.templates c) : d.reachable t ⊆ d.reachable c := by
  intro k hk
  have hr : Reaches d.templates t k := mem_reachable_iff.mp hk
  exact mem_reachable_iff.mpr (hr.head ht)

/-- A template reaches fewer cells than its cell: not the cell itself. -/
theorem length_reachable_lt (h : d.WellFormed) (ht : t ∈ d.templates c) :
    (d.reachable t).length < (d.reachable c).length := by
  have hc : c ∉ d.reachable t := fun hc => h.acyclic c t ht (mem_reachable_iff.mp hc)
  have hnodup : (c :: d.reachable t).Nodup := List.nodup_cons.mpr ⟨hc, nodup_reachable d t⟩
  have hsub : c :: d.reachable t ⊆ d.reachable c :=
    List.cons_subset.mpr ⟨self_mem_reachable d c, reachable_subset ht⟩
  have hle := (hnodup.subperm hsub).length_le
  rw [List.length_cons] at hle
  omega

/-- What holds of a cell if it holds of its templates holds of every cell. -/
@[elab_as_elim]
theorem WellFormed.template_induction (h : d.WellFormed) {P : CellId → Prop}
    (hstep : ∀ c, (∀ t ∈ d.templates c, P t) → P c) (c : CellId) : P c := by
  induction hn : (d.reachable c).length using Nat.strong_induction_on generalizing c with
  | _ n ih => exact hstep c fun t ht => ih _ (hn ▸ length_reachable_lt h ht) t rfl

theorem isSome_cell_of_templates (h : d.WellFormed) (ht : t ∈ d.templates c) : (d.cell? t).isSome := by
  obtain ⟨i, inst, -, hinst, rfl⟩ := mem_templates_iff.mp ht
  exact h.isSome_template i inst hinst

/-- A cell reaches itself and cells of the design. -/
theorem length_reachable_le (h : d.WellFormed) (c : CellId) : (d.reachable c).length ≤ d.cells.size + 1 := by
  have hsub : d.reachable c ⊆ c :: d.cellIds := by
    intro k hk
    have hr : Reaches d.templates c k := mem_reachable_iff.mp hk
    cases hr with
    | refl => exact List.mem_cons_self
    | tail _ he =>
      have hsome : (d.cell? k).isSome := isSome_cell_of_templates h he
      exact List.mem_cons_of_mem _ (List.mem_toFinset.mp (mem_cellSet_iff.mpr hsome))
  have hle := ((nodup_reachable d c).subperm hsub).length_le
  simpa [cellIds] using hle

/-- A cell of the design reaches cells of the design only. -/
theorem length_reachable_le_size (h : d.WellFormed) (hc : (d.cell? c).isSome) :
    (d.reachable c).length ≤ d.cells.size := by
  have hsub : d.reachable c ⊆ d.cellIds := by
    intro k hk
    refine List.mem_toFinset.mp (mem_cellSet_iff.mpr ?_)
    have hr : Reaches d.templates c k := mem_reachable_iff.mp hk
    cases hr with
    | refl => exact hc
    | tail _ he => exact isSome_cell_of_templates h he
  have hle := ((nodup_reachable d c).subperm hsub).length_le
  simpa [cellIds] using hle

/-! ## Content -/

theorem childBoxes_ne_nil_iff : d.childBoxes c ≠ [] ↔ ∃ m ∈ d.children c, (d.box? m).isSome := by
  simp only [childBoxes, ne_eq, List.filterMap_eq_nil_iff, not_forall, exists_prop, Option.isSome_iff_ne_none]

/-- A cell has content if one of its objects has a box, or the cell itself. -/
theorem isSome_contentBox_iff [Scalar α] :
    (d.contentBox? c).isSome ↔ (∃ m ∈ d.children c, (d.box? m).isSome) ∨ (d.box? (.cell c)).isSome := by
  rw [← childBoxes_ne_nil_iff, ← Box.isSome_tight_iff]
  cases hcell : d.cell? c with
  | none => simp [contentBox?, box?, childBoxes, children, hcell, Box.tight?]
  | some cell =>
    cases hfrozen : cell.frozen with
    | none => simp [contentBox?, box?, hcell, hfrozen]
    | some b => simp [contentBox?, box?, hcell, hfrozen]

/-! ## Fuel of a drawing -/

theorem template_mem_templates {cell : Cell α} (hcell : d.cell? c = some cell) {i : InstanceId}
    (hi : i ∈ cell.instances) {inst : Instance α} (hinst : d.instance? i = some inst) :
    inst.template ∈ d.templates c :=
  mem_templates_iff.mpr ⟨i, inst, inst_mem_children_iff.mpr ⟨cell, hcell, hi⟩, hinst, rfl⟩

variable [Scalar α]

/-- Fuel for as many levels as cells are reached is enough for a drawing. -/
theorem flattenFrom_fuel (h : d.WellFormed) {fuel fuel' : Nat} (hf : (d.reachable c).length ≤ fuel)
    (hf' : (d.reachable c).length ≤ fuel') (dx dy : α) (path : List String) :
    d.flattenFrom fuel c dx dy path = d.flattenFrom fuel' c dx dy path := by
  induction fuel generalizing fuel' c dx dy path with
  | zero =>
    have hpos := length_reachable_pos d c
    omega
  | succ fuel ih =>
    cases fuel' with
    | zero =>
      have hpos := length_reachable_pos d c
      omega
    | succ fuel' =>
      unfold flattenFrom
      cases hcell : d.cell? c with
      | none => rfl
      | some cell =>
        simp only
        congr 1
        refine List.flatMap_congr fun i hi => ?_
        cases hinst : d.instance? i with
        | none => rfl
        | some inst =>
          have hlt := length_reachable_lt h (template_mem_templates hcell hi hinst)
          simp only
          split
          · exact ih (by omega) (by omega) _ _ _
          · rfl

/-! ## What a cell and its instances draw -/

/-- What an instance draws at an offset below a path. -/
def drawnBy (d : Design α) (fuel : Nat) (i : InstanceId) (dx dy : α) (path : List String) : List (FlatRect α) :=
  match d.instance? i with
  | none => []
  | some inst =>
    match inst.box, d.contentBox? inst.template with
    | some box, some content =>
      d.flattenFrom fuel inst.template (dx + box.x1 - content.x1) (dy + box.y1 - content.y1) (path ++ [inst.name])
    | _, _ => []

/-- A drawing is made of the polygons of the cell and of what its instances draw. -/
theorem flattenFrom_succ {cell : Cell α} (hcell : d.cell? c = some cell) (fuel : Nat) (dx dy : α) (path : List String) :
    d.flattenFrom (fuel + 1) c dx dy path =
      d.flatPolygons cell dx dy path ++ cell.instances.flatMap fun i => d.drawnBy fuel i dx dy path := by
  rw [flattenFrom, hcell]
  rfl

theorem mem_flatPolygons_iff {cell : Cell α} {dx dy : α} {path : List String} {r : FlatRect α} :
    r ∈ d.flatPolygons cell dx dy path ↔ ∃ p ∈ cell.polygons, ∃ polygon, d.polygon? p = some polygon ∧
      ∃ box, polygon.box = some box ∧ r = ⟨path ++ [polygon.name], polygon.layer, box.translate dx dy⟩ := by
  simp only [flatPolygons, List.mem_filterMap, Option.bind_eq_bind, Option.pure_def, Option.bind_eq_some_iff,
    Option.some.injEq, @eq_comm _ r]

/-! ## Drawings moved as a whole -/

section

variable {d : Design Rat}

theorem flatPolygons_eq_map (cell : Cell Rat) (dx dy : Rat) (path : List String) :
    d.flatPolygons cell dx dy path = (d.flatPolygons cell 0 0 []).map (FlatRect.moved path dx dy) := by
  rw [flatPolygons, flatPolygons, List.map_filterMap]
  refine List.filterMap_congr fun p _ => ?_
  simp only [Option.bind_eq_bind, Option.pure_def, Option.map_bind, Function.comp_def, Option.map_some, FlatRect.moved,
    Box.translate_zero, List.nil_append]

/-- At an offset below a path a cell draws what it draws on its own, moved. -/
theorem flattenFrom_eq_map (fuel : Nat) (c : CellId) (dx dy : Rat) (path : List String) :
    d.flattenFrom fuel c dx dy path = (d.flattenFrom fuel c 0 0 []).map (FlatRect.moved path dx dy) := by
  induction fuel generalizing c dx dy path with
  | zero => rfl
  | succ fuel ih =>
    cases hcell : d.cell? c with
    | none => simp [flattenFrom, hcell]
    | some cell =>
      rw [flattenFrom_succ hcell, flattenFrom_succ hcell, List.map_append, flatPolygons_eq_map, List.map_flatMap]
      congr 1
      refine List.flatMap_congr fun i _ => ?_
      unfold drawnBy
      cases d.instance? i with
      | none => rfl
      | some inst =>
        simp only
        split
        · rename_i box content _ _
          rw [ih, ih _ (0 + box.x1 - content.x1), List.map_map]
          refine List.map_congr_left fun r _ => ?_
          rw [Function.comp_apply, FlatRect.moved_moved, List.nil_append]
          congr 1 <;> ring
        · rfl

end

end Design

end RectLayout
