import RectLayout.Proofs.Library.Order

/-!
# What references find when names repeat

A design knows its cells by handle, so names may repeat; a library knows them by name. A reference finds the form of the
first cell in the order of the export that has the name of its template (`exists_found_of_firstNamed`). That is the
template, unless a cell with its name is listed before it; then the template is hidden, and the reference stands for a
cell that the instance does not draw (`finds_first_of_ofDesign`, `not_finds_template`).
-/

namespace RectLayout

/-! ## The first cell of a name -/

namespace Design

variable {α : Type} {d : Design α} {order : List CellId} {name : String} {c t : CellId}

/-- The first cell of a list that has a name. -/
structure FirstNamed (d : Design α) (order : List CellId) (name : String) (c : CellId) : Prop where
  named : d.name (.cell c) = name
  first : ∃ before after, order = before ++ c :: after ∧ ∀ b ∈ before, d.name (.cell b) ≠ name

/-- A cell of a list is hidden if a cell before it has its name. -/
def Hidden (d : Design α) (order : List CellId) (c : CellId) : Prop :=
  ∃ before after, order = before ++ c :: after ∧ ∃ b ∈ before, d.name (.cell b) = d.name (.cell c)

theorem firstNamed_iff_find? :
    d.FirstNamed order name c ↔ order.find? (fun k => d.name (.cell k) == name) = some c := by
  simp only [List.find?_eq_some_iff_append, beq_iff_eq, Bool.not_eq_true', beq_eq_false_iff_ne]
  exact ⟨fun h => ⟨h.named, h.first⟩, fun h => ⟨h.1, h.2⟩⟩

theorem exists_firstNamed (ht : t ∈ order) : ∃ c, d.FirstNamed order (d.name (.cell t)) c := by
  simp only [firstNamed_iff_find?, ← Option.isSome_iff_exists, List.find?_isSome]
  exact ⟨t, ht, beq_self_eq_true _⟩

/-- The first cell with the name of a cell is another one exactly if that cell is hidden. -/
theorem FirstNamed.ne_iff_hidden (h : d.FirstNamed order (d.name (.cell t)) c) (horder : order.Nodup) (ht : t ∈ order) :
    c ≠ t ↔ d.Hidden order t := by
  obtain ⟨hnamed, before, after, hsplit, hfirst⟩ := h
  have hbefore : t ∉ before := fun hmem => hfirst t hmem rfl
  constructor
  · intro hne
    rw [hsplit, List.mem_append, List.mem_cons] at ht
    have hmem : t ∈ after := (ht.resolve_left hbefore).resolve_left hne.symm
    obtain ⟨between, rest, rfl⟩ := List.append_of_mem hmem
    exact ⟨before ++ c :: between, rest, by rw [hsplit, List.append_assoc]; rfl, c, by simp, hnamed⟩
  · rintro ⟨before', after', hsplit', b, hb, hname⟩ rfl
    rw [hsplit, List.nodup_middle, List.nodup_cons, List.mem_append, not_or] at horder
    obtain ⟨rfl, -, -⟩ := (List.append_cons_inj_of_notMem horder.1.1 horder.1.2).mp (hsplit.symm.trans hsplit')
    exact hfirst b hb hname

end Design

/-! ## References -/

namespace Library

open Design

variable {α : Type} [Scalar α] {d : Design α} {layers : LayerTable} {ratio : α} {top c : CellId} {lib : Library α}

/-- A library has the form of the first cell of a name under that name. -/
theorem exists_found_of_firstNamed (hlib : ofDesign d top layers ratio = .ok lib) {name : String}
    (h : d.FirstNamed (d.dependencies top) name c) :
    ∃ found, cellOf d layers ratio top c = .ok found ∧ lib.cell? name = some found := by
  have hcells := mapM_ok_iff.mp (ofDesign_ok hlib).2
  have hsame : ∀ k source, cellOf d layers ratio top k = .ok source →
      (d.name (.cell k) == name) = (source.name == name) := fun k source hk => by rw [(cellOf_ok_iff.mp hk).2.name]
  exact exists_find?_of_forall₂ hsame hcells (firstNamed_iff_find?.mp h)

/-- A reference finds the form of the first cell that has the name of the template of a placement. It is the template
unless that is hidden. -/
def FindsFirst (d : Design α) (layers : LayerTable) (ratio : α) (top : CellId) (lib : Library α) (p : Placement α)
    (r : LibraryRef) : Prop :=
  ∃ c found, d.FirstNamed (d.dependencies top) (d.name (.cell p.template)) c ∧
    cellOf d layers ratio top c = .ok found ∧ lib.cell? r.cell = some found ∧
    (c ≠ p.template ↔ d.Hidden (d.dependencies top) p.template)

/-- Every reference of an exported library finds the form of the first cell, in the order of the export, that has the
name of its instance's template; which is another cell exactly if the template is hidden. -/
theorem finds_first_of_ofDesign (hd : d.WellFormed) (hlib : ofDesign d top layers ratio = .ok lib) :
    List.Forall₂ (fun c source => List.Forall₂ (FindsFirst d layers ratio top lib) (d.placements c) source.refs)
      (d.dependencies top) lib.cells := by
  have htop := isSome_cell_of_ofDesign hlib
  have hlisting := listing_dependencies hd htop
  have hcells := (List.forall₂_and_left _ _).mpr ⟨fun c hc => hc, mapM_ok_iff.mp (ofDesign_ok hlib).2⟩
  refine hcells.imp fun c source ⟨hc, hsource⟩ => ?_
  rw [(cellOf_ok_iff.mp hsource).2.refs, List.forall₂_map_right_iff, List.forall₂_same]
  intro p hp
  have ht : p.template ∈ d.dependencies top :=
    (hlisting.mem_iff _).mpr (((hlisting.mem_iff c).mp hc).tail (template_mem_of_placement hp))
  obtain ⟨t, hfirst⟩ := exists_firstNamed (d := d) ht
  obtain ⟨found, hfound, hcell⟩ := exists_found_of_firstNamed hlib hfirst
  exact ⟨t, found, hfirst, hfound, hcell, hfirst.ne_iff_hidden hlisting.nodup ht⟩

/-- Two pads of one name. The top has an instance of each, of which only the one of the second pad has a box. -/
def twoPads : List (Operation Rat) :=
  [.addCell "pad", .addPolygon ⟨0⟩ "plate" "met1", .setBox (.polygon ⟨0⟩) ⟨0, 0, 2, 1⟩, .addCell "pad",
    .addPolygon ⟨1⟩ "left" "met1", .setBox (.polygon ⟨1⟩) ⟨0, 0, 1, 1⟩, .addPolygon ⟨1⟩ "right" "met1",
    .setBox (.polygon ⟨2⟩) ⟨3, 0, 4, 1⟩, .addCell "top", .addInstance ⟨2⟩ "old" ⟨0⟩, .addInstance ⟨2⟩ "new" ⟨1⟩,
    .setBox (.inst ⟨1⟩) ⟨0, 0, 4, 1⟩]

/-- What is written for the two pads and the top. -/
def twoPadsLibrary : Library Rat :=
  ⟨1, [⟨"pad", [⟨68, 20, 0, 0, 2, 1⟩], []⟩, ⟨"pad", [⟨68, 20, 0, 0, 1, 1⟩, ⟨68, 20, 3, 0, 4, 1⟩], []⟩,
    ⟨"top", [], [⟨"new", "pad", 0, 0⟩]⟩]⟩

theorem finds_first_of_ofDesign_twoPads : (empty.run twoPads).WellFormed ∧
    ofDesign (empty.run twoPads) ⟨2⟩ ⟨[("met1", ⟨68, 20⟩)]⟩ 1 = .ok twoPadsLibrary ∧
    (empty.run twoPads).dependencies ⟨2⟩ = [⟨0⟩, ⟨1⟩, ⟨2⟩] ∧
    List.Forall₂ (fun c source => List.Forall₂
        (FindsFirst (empty.run twoPads) ⟨[("met1", ⟨68, 20⟩)]⟩ 1 ⟨2⟩ twoPadsLibrary)
        ((empty.run twoPads).placements c) source.refs)
      ((empty.run twoPads).dependencies ⟨2⟩) twoPadsLibrary.cells := by
  have hd : (empty.run twoPads).WellFormed := wellFormed_empty.run twoPads
  have hlib : ofDesign (empty.run twoPads) ⟨2⟩ ⟨[("met1", ⟨68, 20⟩)]⟩ 1 = .ok twoPadsLibrary := by decide +kernel
  exact ⟨hd, hlib, by decide +kernel, finds_first_of_ofDesign hd hlib⟩

/-- A reference may find another cell than the template of its instance. -/
theorem not_finds_template : ¬ ∀ (d : Design Rat) (top : CellId) (layers : LayerTable) (ratio : Rat) (lib : Library Rat),
    d.Reachable → ofDesign d top layers ratio = .ok lib → ∀ c ∈ d.reachable top, ∀ p ∈ d.placements c,
    ∃ found, cellOf d layers ratio top p.template = .ok found ∧
      lib.cell? (refOf d ratio (origin d c (c = top)) p).cell = some found := by
  intro h
  obtain ⟨found, hform, hfound⟩ := h (empty.run twoPads) ⟨2⟩ ⟨[("met1", ⟨68, 20⟩)]⟩ 1 twoPadsLibrary ⟨twoPads, rfl⟩
    (by decide +kernel) ⟨2⟩ (by decide +kernel) ⟨"new", ⟨1⟩, ⟨0, 0, 4, 1⟩⟩ (by decide +kernel)
  have htemplate : cellOf (empty.run twoPads) ⟨[("met1", ⟨68, 20⟩)]⟩ 1 ⟨2⟩ ⟨1⟩ =
      .ok ⟨"pad", [⟨68, 20, 0, 0, 1, 1⟩, ⟨68, 20, 3, 0, 4, 1⟩], []⟩ := by decide +kernel
  have hpad : twoPadsLibrary.cell? ((empty.run twoPads).name (.cell ⟨1⟩)) =
      some ⟨"pad", [⟨68, 20, 0, 0, 2, 1⟩], []⟩ := by decide +kernel
  obtain rfl := Except.ok.inj (hform.symm.trans htemplate)
  have hsame := Option.some.inj (hpad.symm.trans hfound)
  revert hsame
  decide

end Library

end RectLayout
