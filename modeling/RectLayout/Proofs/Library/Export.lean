import RectLayout.Proofs.Design.Fill
import RectLayout.Proofs.Library.Units
import RectLayout.Proofs.Traverse

/-!
# What an export writes

The library of a cell has one cell for each cell that it reaches (`mem_dependencies_iff`), and each of them writes what
its cell shows, relative to its origin (`Written`, `cellOf_ok_iff`). If the names of these cells differ, each is found
under its name (`cell?_of_ofDesign`).
-/

namespace RectLayout

namespace Design

variable {α : Type} {d : Design α} {c top : CellId}

/-- An export writes exactly the cells that its top reaches. -/
theorem mem_dependencies_iff (h : d.WellFormed) (htop : (d.cell? top).isSome) :
    c ∈ d.dependencies top ↔ c ∈ d.reachable top := by
  have hrank : ∀ c, ∀ t ∈ d.templates c, (d.reachable t).length < (d.reachable c).length :=
    fun c t ht => length_reachable_lt h ht
  have hle := length_reachable_le_size h htop
  rw [mem_reachable_iff]
  exact Walk.mem_postorder_iff hrank (by omega)

/-- A design has no more reached cells than an export writes. -/
theorem length_reachable_le_dependencies (h : d.WellFormed) (htop : (d.cell? top).isSome) :
    (d.reachable top).length ≤ (d.dependencies top).length :=
  ((nodup_reachable d top).subperm fun _ hc => (mem_dependencies_iff h htop).mpr hc).length_le

end Design

namespace Library

open Design

variable {α : Type} [Scalar α] {d : Design α} {layers : LayerTable} {ratio : α} {top c : CellId}

/-- A rectangle is what is written for a shape, relative to a point. -/
def WrittenRect (layers : LayerTable) (ratio : α) (o : α × α) (s : Shape α) (r : LibraryRect) : Prop :=
  layers.get? s.layer = some ⟨r.layer, r.datatype⟩ ∧ r.x1 = toUnits ratio (s.box.x1 - o.1) ∧
    r.y1 = toUnits ratio (s.box.y1 - o.2) ∧ r.x2 = toUnits ratio (s.box.x2 - o.1) ∧ r.y2 = toUnits ratio (s.box.y2 - o.2)

/-- The reference that is written for a placement, relative to a point. -/
def refOf (d : Design α) (ratio : α) (o : α × α) (p : Placement α) : LibraryRef :=
  ⟨p.name, d.name (.cell p.template), toUnits ratio (p.box.x1 - o.1), toUnits ratio (p.box.y1 - o.2)⟩

/-- A cell of a library that writes what a cell shows, relative to a point. -/
structure Written (d : Design α) (layers : LayerTable) (ratio : α) (o : α × α) (c : CellId) (source : LibraryCell) :
    Prop where
  name : source.name = d.name (.cell c)
  rects : List.Forall₂ (WrittenRect layers ratio o) (d.shapes c) source.rects
  refs : source.refs = (d.placements c).map (refOf d ratio o)

theorem rectOf_ok {o : α × α} {s : Shape α} {r : LibraryRect} (h : rectOf layers ratio o s.layer s.box = .ok r) :
    WrittenRect layers ratio o s r := by
  cases hlayer : layers.get? s.layer with
  | none => simp [rectOf, hlayer] at h
  | some spec =>
    simp only [rectOf, hlayer, Except.ok.injEq] at h
    rw [← h]
    exact ⟨hlayer, rfl, rfl, rfl, rfl⟩

theorem WrittenRect.rectOf_eq {o : α × α} {s : Shape α} {r : LibraryRect} (h : WrittenRect layers ratio o s r) :
    rectOf layers ratio o s.layer s.box = .ok r := by
  obtain ⟨hlayer, hx₁, hy₁, hx₂, hy₂⟩ := h
  simp only [rectOf, hlayer, ← hx₁, ← hy₁, ← hx₂, ← hy₂]

omit [Scalar α] in
/-- The bound polygons of a cell are its shapes. -/
theorem map_boundPolygons {cell : Cell α} (hcell : d.cell? c = some cell) :
    (boundPolygons d cell).map (fun b => (⟨b.1.layer, b.2⟩ : Shape α)) = d.shapes c := by
  simp only [boundPolygons, shapes, hcell, Option.map_some, Option.getD_some, List.map_filterMap]
  refine List.filterMap_congr fun p _ => ?_
  cases d.polygon? p with
  | none => rfl
  | some x => cases hx : x.box <;> simp [hx]

omit [Scalar α] in
/-- The bound instances of a cell are its placements. -/
theorem map_boundInstances {cell : Cell α} (hcell : d.cell? c = some cell) :
    (boundInstances d cell).map (fun b => (⟨b.1.name, b.1.template, b.2⟩ : Placement α)) = d.placements c := by
  simp only [boundInstances, placements, hcell, Option.map_some, Option.getD_some, List.map_filterMap]
  refine List.filterMap_congr fun i _ => ?_
  cases d.instance? i with
  | none => rfl
  | some x => cases hx : x.box <;> simp [hx]

/-- The form of a cell in a library writes what the cell shows, relative to its origin. -/
theorem cellOf_ok {source : LibraryCell} (h : cellOf d layers ratio top c = .ok source) :
    (d.cell? c).isSome ∧ Written d layers ratio (origin d c (c = top)) c source := by
  unfold cellOf at h
  obtain ⟨cell, hget, h⟩ := bind_eq_ok_iff.mp h
  have hcell := getCell_ok hget
  obtain ⟨rects, hrects, h⟩ := bind_eq_ok_iff.mp h
  have hsource := Except.ok.inj h
  refine ⟨by rw [hcell]; rfl, ?_, ?_, ?_⟩
  · rw [← hsource, Design.name, hcell]
    rfl
  · rw [← hsource, ← map_boundPolygons hcell, List.forall₂_map_left_iff]
    exact (mapM_ok_iff.mp hrects).imp fun b r hr => rectOf_ok hr
  · rw [← hsource, ← map_boundInstances hcell, List.map_map]
    rfl

/-- What writes a cell is its form in a library. -/
theorem Written.cellOf_eq {source : LibraryCell} (hc : (d.cell? c).isSome)
    (h : Written d layers ratio (origin d c (c = top)) c source) : cellOf d layers ratio top c = .ok source := by
  obtain ⟨cell, hcell⟩ := Option.isSome_iff_exists.mp hc
  have hrects : (boundPolygons d cell).mapM (fun b => rectOf layers ratio (origin d c (c = top)) b.1.layer b.2) =
      .ok source.rects := by
    have hrects := h.rects
    rw [← map_boundPolygons hcell, List.forall₂_map_left_iff] at hrects
    exact mapM_ok_iff.mpr (hrects.imp fun b r hr => hr.rectOf_eq)
  have hname : cell.name = source.name := by
    rw [h.name, Design.name, hcell]
    rfl
  have hrefs := h.refs
  rw [← map_boundInstances hcell, List.map_map] at hrefs
  unfold cellOf
  rw [getCell_eq hcell]
  show Except.bind (List.mapM _ _) _ = _
  rw [hrects, hname]
  show Except.ok (LibraryCell.mk source.name source.rects _) = _
  congr
  exact hrefs.symm

theorem cellOf_ok_iff {source : LibraryCell} : cellOf d layers ratio top c = .ok source ↔
    (d.cell? c).isSome ∧ Written d layers ratio (origin d c (c = top)) c source :=
  ⟨cellOf_ok, fun h => h.2.cellOf_eq h.1⟩

/-- A library has the cells that its top reaches, in order. -/
theorem ofDesign_ok {lib : Library α} (h : ofDesign d top layers ratio = .ok lib) :
    lib.unitRatio = ratio ∧ (d.dependencies top).mapM (cellOf d layers ratio top) = .ok lib.cells := by
  obtain ⟨cells, hcells, h⟩ := bind_eq_ok_iff.mp h
  rw [← Except.ok.inj h]
  exact ⟨rfl, hcells⟩

theorem isSome_cell_of_ofDesign {lib : Library α} (h : ofDesign d top layers ratio = .ok lib) :
    (d.cell? top).isSome := by
  have htop : top ∈ d.dependencies top := Walk.mem_postorder_self _ _ _
  obtain ⟨source, -, hsource⟩ := exists_mem_of_mapM (ofDesign_ok h).2 htop
  exact (cellOf_ok_iff.mp hsource).1

/-- A library has no fewer cells than its top reaches. -/
theorem length_reachable_le_cells (hd : d.WellFormed) {lib : Library α} (h : ofDesign d top layers ratio = .ok lib) :
    (d.reachable top).length ≤ lib.cells.length := by
  have hlength := (mapM_ok_iff.mp (ofDesign_ok h).2).length_eq
  have hle := length_reachable_le_dependencies hd (isSome_cell_of_ofDesign h)
  omega

/-- Reached cells whose names differ are found under their names. -/
theorem cell?_of_ofDesign (hd : d.WellFormed) {lib : Library α} (h : ofDesign d top layers ratio = .ok lib)
    (hnames : ∀ a ∈ d.reachable top, ∀ b ∈ d.reachable top, d.name (.cell a) = d.name (.cell b) → a = b)
    (hc : c ∈ d.reachable top) : ∃ source, lib.cell? (d.name (.cell c)) = some source ∧
      Written d layers ratio (origin d c (c = top)) c source := by
  have htop := isSome_cell_of_ofDesign h
  have hcells := (ofDesign_ok h).2
  obtain ⟨written, hmem, hwritten⟩ := exists_mem_of_mapM hcells ((mem_dependencies_iff hd htop).mpr hc)
  have hfound : (lib.cell? (d.name (.cell c))).isSome := by
    rw [Library.cell?, List.find?_isSome]
    exact ⟨written, hmem, by rw [(cellOf_ok_iff.mp hwritten).2.name]; exact beq_self_eq_true _⟩
  obtain ⟨source, hsource⟩ := Option.isSome_iff_exists.mp hfound
  refine ⟨source, hsource, ?_⟩
  -- the cell that is found is written for a cell of the same name, which is `c`
  rw [Library.cell?] at hsource
  have hname := List.find?_some hsource
  rw [beq_iff_eq] at hname
  obtain ⟨b, hb, hbs⟩ := exists_of_mem_mapM hcells (List.mem_of_find?_eq_some hsource)
  have hb := (mem_dependencies_iff hd htop).mp hb
  have hbc : b = c := hnames b hb c hc ((cellOf_ok_iff.mp hbs).2.name.symm.trans hname)
  rw [← hbc]
  exact (cellOf_ok_iff.mp hbs).2

end Library

end RectLayout
