import RectLayout.Proofs.Library.Export

/-!
# Which cells an export writes, and when it refuses

An export lists the cells that its top reaches, each once and after its templates, the top last
(`listing_dependencies`), and writes them in that order, each with one rectangle for each bound polygon and one reference
for each bound instance. It fails only because its top does not exist or because a bound polygon of one of these cells is
on a layer that has no numbers, and says which of the two it was (`ofDesign_decides`).
-/

namespace RectLayout

open Walk

/-! ## The order of the cells -/

namespace Design

variable {α : Type} {d : Design α} {c top : CellId}

/-- A list of exactly the cells that `top` reaches, each once and after its templates, with `top` at its end. -/
structure Listing (d : Design α) (top : CellId) (order : List CellId) : Prop where
  mem_iff : ∀ c, c ∈ order ↔ Reaches d.templates top c
  nodup : order.Nodup
  ordered : Ordered d.templates order
  last : order.getLast? = some top

theorem templates_of_cell_eq_none (h : d.cell? c = none) : d.templates c = [] := by simp [templates, h]

/-- The dependencies of a cell end with the cell. -/
theorem getLast?_dependencies (d : Design α) (top : CellId) : (d.dependencies top).getLast? = some top := by
  rw [dependencies, postorder_of_not_mem List.not_mem_nil, List.getLast?_concat]

theorem listing_dependencies (h : d.WellFormed) (htop : (d.cell? top).isSome) : d.Listing top (d.dependencies top) := by
  have hrank : ∀ c, ∀ t ∈ d.templates c, (d.reachable t).length < (d.reachable c).length :=
    fun c t ht => length_reachable_lt h ht
  have hle := length_reachable_le_size h htop
  refine ⟨fun c => ?_, nodup_postorder hrank _ List.nodup_nil top, ?_, getLast?_dependencies d top⟩
  · exact mem_postorder_iff hrank (by omega)
  · exact (ordered_postorder hrank (by omega) ordered_nil).2

/-- All cells that a cell of the design reaches are cells of the design. -/
theorem isSome_cell_of_reaches (h : d.WellFormed) (htop : (d.cell? top).isSome) (hc : Reaches d.templates top c) :
    (d.cell? c).isSome := by
  cases hc with
  | refl => exact htop
  | tail _ he => exact isSome_cell_of_templates h he

/-- A stale handle depends on nothing but itself. -/
theorem dependencies_of_cell_eq_none (htop : d.cell? top = none) : d.dependencies top = [top] := by
  rw [dependencies, postorder_of_not_mem List.not_mem_nil, templates_of_cell_eq_none htop]
  rfl

end Design

namespace Library

open Design

variable {α : Type} [Scalar α] {d : Design α} {layers : LayerTable} {ratio : α} {top c : CellId} {e : LayoutError}

/-! ## Refusals -/

theorem rectOf_error {o : α × α} {layer : String} {box : Box α} (h : rectOf layers ratio o layer box = .error e) :
    layers.get? layer = none ∧ e = .unknownLayer layer := by
  cases hlayer : layers.get? layer with
  | none =>
    simp only [rectOf, hlayer, Except.error.injEq] at h
    exact ⟨rfl, h.symm⟩
  | some spec => simp [rectOf, hlayer] at h

/-- A cell that exists is not written because of the layer of one of its shapes. -/
theorem cellOf_error (hc : (d.cell? c).isSome) (h : cellOf d layers ratio top c = .error e) :
    ∃ s ∈ d.shapes c, layers.get? s.layer = none ∧ e = .unknownLayer s.layer := by
  unfold cellOf at h
  rcases bind_eq_error_iff.mp h with hget | ⟨cell, hget, h⟩
  · obtain ⟨cell, hcell⟩ := Option.isSome_iff_exists.mp hc
    cases (getCell_eq hcell).symm.trans hget
  · rcases bind_eq_error_iff.mp h with hrects | ⟨_, -, h⟩
    · obtain ⟨⟨p, box⟩, hp, hfail⟩ := exists_error_of_mapM hrects
      refine ⟨⟨p.layer, box⟩, ?_, rectOf_error hfail⟩
      rw [← map_boundPolygons (getCell_ok hget)]
      exact List.mem_map_of_mem hp
    · cases h

/-- Why an export fails. -/
inductive Refused (d : Design α) (layers : LayerTable) (top : CellId) : LayoutError → Prop
  | stale : d.cell? top = none → Refused d layers top .invalidHandle
  | unknownLayer {c : CellId} {s : Shape α} : Reaches d.templates top c → s ∈ d.shapes c →
    layers.get? s.layer = none → Refused d layers top (.unknownLayer s.layer)

theorem refused_of_ofDesign (hd : d.WellFormed) (h : ofDesign d top layers ratio = .error e) :
    Refused d layers top e := by
  have hcells : (d.dependencies top).mapM (cellOf d layers ratio top) = .error e := by
    rcases bind_eq_error_iff.mp h with hcells | ⟨_, -, h⟩
    · exact hcells
    · cases h
  obtain ⟨c, hc, hfail⟩ := exists_error_of_mapM hcells
  cases htop : d.cell? top with
  | none =>
    rw [dependencies_of_cell_eq_none htop, List.mem_singleton] at hc
    subst hc
    simp only [cellOf, getCell, htop] at hfail
    cases hfail
    exact .stale htop
  | some cell =>
    have htop : (d.cell? top).isSome := by rw [htop]; rfl
    have hr := ((listing_dependencies hd htop).mem_iff c).mp hc
    obtain ⟨s, hs, hlayer, rfl⟩ := cellOf_error (isSome_cell_of_reaches hd htop hr) hfail
    exact .unknownLayer hr hs hlayer

/-- What was written has a top that exists and no shape on an unknown layer. -/
theorem not_refused_of_ofDesign (hd : d.WellFormed) {lib : Library α} (h : ofDesign d top layers ratio = .ok lib) :
    ¬ Refused d layers top e := by
  have htop := isSome_cell_of_ofDesign h
  rintro (hnone | ⟨hr, hs, hlayer⟩)
  · rw [hnone] at htop
    cases htop
  · obtain ⟨source, -, hsource⟩ :=
      exists_mem_of_mapM (ofDesign_ok h).2 (((listing_dependencies hd htop).mem_iff _).mpr hr)
    obtain ⟨r, -, hr⟩ := exists_of_forall₂ (cellOf_ok_iff.mp hsource).2.rects.flip hs
    cases hlayer.symm.trans hr.1

/-! ## Decisions -/

/-- A library that is exported has one cell for each cell that the top reaches, each once and after its templates, the
top last; it has one rectangle for each bound polygon and one reference for each bound instance of the cell, in the
cell's order. The export fails exactly if the top does not exist or a bound polygon of a reached cell is on a layer
without numbers, and says which. -/
theorem ofDesign_decides (hd : d.WellFormed) (top : CellId) (layers : LayerTable) (ratio : α) :
    (∀ lib, ofDesign d top layers ratio = .ok lib → lib.unitRatio = ratio ∧ ∃ order, d.Listing top order ∧
      List.Forall₂ (fun c source => Written d layers ratio (origin d c (c = top)) c source) order lib.cells) ∧
    ((∃ e, ofDesign d top layers ratio = .error e) ↔ d.cell? top = none ∨
      ∃ c, Reaches d.templates top c ∧ ∃ s ∈ d.shapes c, layers.get? s.layer = none) ∧
    ∀ e, ofDesign d top layers ratio = .error e → Refused d layers top e := by
  refine ⟨fun lib h => ?_, ⟨fun ⟨e, h⟩ => ?_, fun hrefused => ?_⟩, fun e h => refused_of_ofDesign hd h⟩
  · obtain ⟨hratio, hcells⟩ := ofDesign_ok h
    refine ⟨hratio, d.dependencies top, listing_dependencies hd (isSome_cell_of_ofDesign h), ?_⟩
    exact (mapM_ok_iff.mp hcells).imp fun c source hsource => (cellOf_ok_iff.mp hsource).2
  · cases refused_of_ofDesign hd h with
    | stale hnone => exact .inl hnone
    | unknownLayer hr hs hlayer => exact .inr ⟨_, hr, _, hs, hlayer⟩
  · cases h : ofDesign d top layers ratio with
    | error e => exact ⟨e, rfl⟩
    | ok lib =>
      rcases hrefused with hnone | ⟨c, hr, s, hs, hlayer⟩
      · exact absurd (.stale hnone) (not_refused_of_ofDesign hd h)
      · exact absurd (.unknownLayer hr hs hlayer) (not_refused_of_ofDesign hd h)

/-- A stack draws a row and a pad, which the row draws twice. Of the row's instances one has a box, of the stack's only
the pad; the pad has a polygon without a box. -/
def padStack : List (Operation Rat) :=
  [.addCell "stack", .addCell "row", .addCell "pad", .addPolygon ⟨2⟩ "plate" "met1",
    .setBox (.polygon ⟨0⟩) ⟨1, 1, 3, 2⟩, .addPolygon ⟨2⟩ "hole" "via1", .addInstance ⟨1⟩ "left" ⟨2⟩,
    .setBox (.inst ⟨0⟩) ⟨0, 0, 2, 1⟩, .addInstance ⟨1⟩ "right" ⟨2⟩, .addInstance ⟨0⟩ "lower" ⟨1⟩,
    .addInstance ⟨0⟩ "upper" ⟨2⟩, .setBox (.inst ⟨3⟩) ⟨0, 4, 2, 5⟩]

/-- The stack is written after the row and the pad, and cannot be written without numbers for the pad's layer. -/
theorem ofDesign_decides_padStack : (empty.run padStack).WellFormed ∧
    (∃ order, (empty.run padStack).Listing ⟨0⟩ order ∧ List.Forall₂ (fun c source =>
        Written (empty.run padStack) ⟨[("met1", ⟨68, 20⟩)]⟩ 10 (origin (empty.run padStack) c (c = ⟨0⟩)) c source) order
      [⟨"pad", [⟨68, 20, 0, 0, 20, 10⟩], []⟩, ⟨"row", [], [⟨"left", "pad", 0, 0⟩]⟩,
        ⟨"stack", [], [⟨"upper", "pad", 0, 40⟩]⟩]) ∧
    ∃ e, ofDesign (empty.run padStack) ⟨0⟩ ⟨[("via1", ⟨68, 20⟩)]⟩ 10 = .error e ∧
      Refused (empty.run padStack) ⟨[("via1", ⟨68, 20⟩)]⟩ ⟨0⟩ e := by
  have hd : (empty.run padStack).WellFormed := wellFormed_empty.run padStack
  have hlib : ofDesign (empty.run padStack) ⟨0⟩ ⟨[("met1", ⟨68, 20⟩)]⟩ 10 = .ok ⟨10,
      [⟨"pad", [⟨68, 20, 0, 0, 20, 10⟩], []⟩, ⟨"row", [], [⟨"left", "pad", 0, 0⟩]⟩,
        ⟨"stack", [], [⟨"upper", "pad", 0, 40⟩]⟩]⟩ := by decide +kernel
  have hpad : Reaches (empty.run padStack).templates ⟨0⟩ ⟨2⟩ := mem_reachable_iff.mp (by decide +kernel)
  obtain ⟨hwritten, -, -⟩ := ofDesign_decides hd ⟨0⟩ ⟨[("met1", ⟨68, 20⟩)]⟩ 10
  obtain ⟨-, hfails, hwhy⟩ := ofDesign_decides hd ⟨0⟩ ⟨[("via1", ⟨68, 20⟩)]⟩ 10
  obtain ⟨e, he⟩ := hfails.mpr (.inr ⟨⟨2⟩, hpad, ⟨"met1", ⟨1, 1, 3, 2⟩⟩, by decide +kernel, by decide +kernel⟩)
  exact ⟨hd, (hwritten _ hlib).2, e, he, hwhy e he⟩

end Library

end RectLayout
