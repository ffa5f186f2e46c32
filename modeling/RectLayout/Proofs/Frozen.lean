import RectLayout.Proofs.Operation

/-!
# Frozen cells do not change

A frozen cell is sealed: its objects have boxes, and the box it is frozen with is its own box and the one around its
objects (`Design.Sealed`). Every operation keeps this (`sealed_after`), and one that does not unfreeze the cell keeps
the cell and its objects as they are (`sameContent_after`): edits refuse frozen cells, and neither a solve nor fitting
comes to the objects of a cell that is not active, as every object has one owner. So nothing that is done later, short
of unfreezing, changes a frozen cell (`sealed_and_sameContent_run`).
-/

namespace RectLayout.Design

variable {α : Type} {d e f : Design α} {c F : CellId} {b : Box α}

/-! ## Frozen boxes -/

/-- The box that a cell is frozen with. -/
def frozenBox? (d : Design α) (c : CellId) : Option (Box α) := (d.cell? c).bind Cell.frozen

theorem not_isActive_of_frozenBox (h : d.frozenBox? c = some b) : ¬ d.isActive c := by
  rw [isActive_iff]
  rintro ⟨cell, hcell, hfrozen⟩
  simp [frozenBox?, hcell, hfrozen] at h

/-- A frozen cell has the box that it was frozen with. -/
theorem box?_of_frozenBox (h : d.frozenBox? c = some b) : d.box? (.cell c) = some b := by
  obtain ⟨cell, hcell, hfrozen⟩ := Option.bind_eq_some_iff.mp h
  simp only [box?, hcell, hfrozen, Option.bind_some, Option.some_or]

/-- A frozen cell has the content that it was frozen with. -/
theorem contentBox?_of_frozenBox [Scalar α] (h : d.frozenBox? c = some b) : d.contentBox? c = some b := by
  obtain ⟨cell, hcell, hfrozen⟩ := Option.bind_eq_some_iff.mp h
  simp only [contentBox?, hcell, hfrozen]

theorem ne_of_frozenBox {cell : Cell α} (h : d.frozenBox? F = some b) (hc : d.cell? c = some cell)
    (hfrozen : cell.frozen = none) : c ≠ F := by
  rintro rfl
  simp [frozenBox?, hc, hfrozen] at h

theorem frozenBox?_modifyCell {g : Cell α → Cell α} (hg : ∀ x, (g x).frozen = x.frozen) :
    (d.modifyCell c g).frozenBox? F = d.frozenBox? F := by
  rw [frozenBox?, cell?_modifyCell]
  split
  · cases h : d.cell? F <;> simp [frozenBox?, h, hg]
  · rfl

theorem frozenBox?_modifyCell_of_ne {g : Cell α → Cell α} (h : c ≠ F) :
    (d.modifyCell c g).frozenBox? F = d.frozenBox? F := by
  rw [frozenBox?, cell?_modifyCell, if_neg h, frozenBox?]

/-! ## What is kept -/

/-- `F` and its objects are the same in `e` as in `d`. -/
structure SameContent (F : CellId) (d e : Design α) : Prop where
  cell : e.cell? F = d.cell? F
  polygon : ∀ p, .polygon p ∈ d.children F → e.polygon? p = d.polygon? p
  inst : ∀ i, .inst i ∈ d.children F → e.instance? i = d.instance? i

namespace SameContent

theorem refl (F : CellId) (d : Design α) : SameContent F d d := ⟨rfl, fun _ _ => rfl, fun _ _ => rfl⟩

theorem children (h : SameContent F d e) : e.children F = d.children F := by
  rw [Design.children, Design.children, h.cell]

theorem symm (h : SameContent F d e) : SameContent F e d where
  cell := h.cell.symm
  polygon p hp := (h.polygon p (h.children ▸ hp)).symm
  inst i hi := (h.inst i (h.children ▸ hi)).symm

theorem trans (h : SameContent F d e) (h' : SameContent F e f) : SameContent F d f where
  cell := h'.cell.trans h.cell
  polygon p hp := (h'.polygon p (h.children ▸ hp)).trans (h.polygon p hp)
  inst i hi := (h'.inst i (h.children ▸ hi)).trans (h.inst i hi)

theorem box (h : SameContent F d e) {n : Node} (hn : n ∈ d.children F) : e.box? n = d.box? n := by
  cases n with
  | cell k => exact absurd rfl (cell_ne_of_mem_children hn k)
  | polygon p => rw [box?, box?, h.polygon p hn]
  | inst i => rw [box?, box?, h.inst i hn]

theorem childBoxes (h : SameContent F d e) : e.childBoxes F = d.childBoxes F := by
  rw [Design.childBoxes, Design.childBoxes, h.children]
  exact List.filterMap_congr fun n hn => h.box hn

theorem frozenBox (h : SameContent F d e) : e.frozenBox? F = d.frozenBox? F := by
  rw [frozenBox?, frozenBox?, h.cell]

end SameContent

/-- What changes no boxes of `F` and its objects keeps them. -/
theorem AgreeOutside.sameContent {S : Set Node} (h : AgreeOutside S d e) (hF : .cell F ∉ S)
    (hchild : ∀ n ∈ d.children F, n ∉ S) : SameContent F d e where
  cell := (h.cell_eq hF).symm
  polygon _ hp := (h.polygon_eq (hchild _ hp)).symm
  inst _ hi := (h.instance_eq (hchild _ hi)).symm

/-- A cell that is not active, and its objects, are no nodes of a solve. -/
theorem WellFormed.sameContent_of_solved (h : d.WellFormed) (hF : ¬ d.isActive F) {root : CellId}
    (hde : AgreeOutside (d.solved root) d e) : SameContent F d e := by
  refine hde.sameContent (fun hs => hF (cell_mem_solved_iff.mp hs).isActive) ?_
  rintro n hn ⟨k, hk, rfl | hnk⟩
  · exact cell_ne_of_mem_children hn k rfl
  · rw [h.eq_of_mem_children hn hnk] at hF
    exact hF hk.isActive

/-- A change of another cell keeps a cell. -/
theorem sameContent_modifyCell {g : Cell α → Cell α} (h : c ≠ F) : SameContent F d (d.modifyCell c g) where
  cell := by rw [cell?_modifyCell, if_neg h]
  polygon _ _ := rfl
  inst _ _ := rfl

/-- An object that a cell lists is not the next one to be made. -/
theorem WellFormed.ne_of_mem_children (h : d.WellFormed) {n m : Node} (hn : n ∈ d.children F)
    (hm : d.owner? m = none) : n ≠ m := by
  rintro rfl
  rw [((h.mem_children_iff n F).mp hn).1] at hm
  cases hm

/-! ## Edits of other cells -/

theorem sameContent_addCell (name : String) (hF : F ≠ ⟨d.cells.size⟩) : SameContent F d (d.addCell name).1 :=
  ⟨by rw [cell?_addCell, if_neg hF], fun _ _ => rfl, fun _ _ => rfl⟩

theorem WellFormed.sameContent_addPolygon (h : d.WellFormed) {name layer : String} {p : PolygonId}
    (hp : d.addPolygon c name layer = .ok (e, p)) (hF : c ≠ F) : SameContent F d e := by
  have hfresh := (newObject_addPolygon hp).fresh
  obtain ⟨cell, -, -, rfl, rfl⟩ := addPolygon_ok hp
  refine ⟨by rw [cell?_modifyCell, if_neg hF]; rfl, fun q hq => ?_, fun _ _ => rfl⟩
  have hne : q ≠ ⟨d.polygons.size⟩ := fun hq' => h.ne_of_mem_children hq hfresh (by rw [hq'])
  rw [polygon?_modifyCell, polygon?_withPolygon, if_neg hne]

theorem WellFormed.sameContent_addInstance (h : d.WellFormed) {name : String} {t : CellId} {i : InstanceId}
    (hi : d.addInstance c name t = .ok (e, i)) (hF : c ≠ F) : SameContent F d e := by
  have hfresh := (newObject_addInstance hi).fresh
  obtain ⟨cell, -, -, -, -, rfl, rfl⟩ := addInstance_ok hi
  refine ⟨by rw [cell?_modifyCell, if_neg hF]; rfl, fun _ _ => rfl, fun j hj => ?_⟩
  have hne : j ≠ ⟨d.instances.size⟩ := fun hj' => h.ne_of_mem_children hj hfresh (by rw [hj'])
  rw [instance?_modifyCell, instance?_withInstance, if_neg hne]

/-- Setting the box of an object keeps all cells but its owner. -/
theorem WellFormed.sameContent_setBox (h : d.WellFormed) {n : Node} (hn : d.setBox n b = .ok e)
    (hF : d.owner? n ≠ some F) : SameContent F d e := by
  obtain ⟨k, cell, howner, -, -, rfl⟩ := setBox_ok hn
  refine (agreeOutside_writeBox (Set.mem_singleton n) d _).sameContent ?_ fun m hm hmn => ?_
  · rintro rfl
    obtain ⟨_, -, rfl⟩ := Option.map_eq_some_iff.mp howner
    exact hF howner
  · rw [Set.mem_singleton_iff.mp hmn, h.mem_children_iff] at hm
    exact hF hm.1

variable [Scalar α] {op : Operation α}

theorem sameContent_freeze (hc : d.freeze c = .ok (e, b)) (hF : c ≠ F) : SameContent F d e := by
  obtain ⟨_, -, ⟨-, rfl⟩ | ⟨-, -, -, rfl⟩⟩ := freeze_ok hc
  · exact .refl F e
  · exact sameContent_modifyCell hF

/-- An operation that does not unfreeze a frozen cell keeps it and its objects. -/
theorem sameContent_after (h : d.WellFormed) (hF : d.frozenBox? F = some b) (hop : op ≠ .unfreeze F) :
    SameContent F d (d.after op) := by
  rcases after_cases d op with hsame | happly
  · rw [hsame]; exact .refl F d
  generalize d.after op = d' at happly ⊢
  have hd' := apply_ok happly
  cases op with
  | addCell name =>
    rw [hd']
    refine sameContent_addCell name ?_
    rintro rfl
    simp [frozenBox?, cell?_size] at hF
  | addPolygon c name layer =>
    obtain ⟨p, hp⟩ := hd'
    obtain ⟨cell, hcell, hfrozen, -, -⟩ := addPolygon_ok hp
    exact h.sameContent_addPolygon hp (ne_of_frozenBox hF hcell hfrozen)
  | addInstance c name template =>
    obtain ⟨i, hi⟩ := hd'
    obtain ⟨cell, hcell, hfrozen, -, -, -, -⟩ := addInstance_ok hi
    exact h.sameContent_addInstance hi (ne_of_frozenBox hF hcell hfrozen)
  | constrain c subject clause object =>
    obtain ⟨cell, hcell, hfrozen, -, -, rfl⟩ := constrain_ok hd'
    exact sameContent_modifyCell (ne_of_frozenBox hF hcell hfrozen)
  | setBox n box =>
    obtain ⟨k, cell, howner, hcell, hfrozen, -⟩ := setBox_ok hd'
    refine h.sameContent_setBox hd' ?_
    rw [howner]
    exact fun hk => ne_of_frozenBox hF hcell hfrozen (Option.some.inj hk)
  | freeze c =>
    obtain ⟨_, hfreeze⟩ := hd'
    by_cases hc : c = F
    · -- a frozen cell is not frozen again
      obtain ⟨cell, hcell, ⟨-, rfl⟩ | ⟨hfrozen, -, -, -⟩⟩ := freeze_ok hfreeze
      · exact .refl F d'
      · exact absurd hc (ne_of_frozenBox hF hcell hfrozen)
    · exact sameContent_freeze hfreeze hc
  | unfreeze c =>
    obtain ⟨-, rfl⟩ := unfreeze_ok hd'
    exact sameContent_modifyCell fun hc => hop (by rw [hc])
  | propagate root =>
    rw [hd']
    exact h.sameContent_of_solved (not_isActive_of_frozenBox hF)
      ((agreeOutside_propagate d root).mono (fitted_subset_solved d root))
  | solve root config optimizer =>
    obtain ⟨r, hr⟩ := hd'
    exact h.sameContent_of_solved (not_isActive_of_frozenBox hF) (agreeOutside_solveWith hr)

/-! ## Sealed cells -/

/-- `F` is frozen with `b`, all its objects have boxes, and `b` is its own box and, if it has objects, the box around
them. -/
structure Sealed (d : Design α) (F : CellId) (b : Box α) : Prop where
  frozen : d.frozenBox? F = some b
  own : d.stored? (.cell F) = some b
  bound : ∀ n ∈ d.children F, (d.box? n).isSome
  tight : d.children F ≠ [] → Box.tight? (d.childBoxes F) = some b

theorem Sealed.of_sameContent (h : d.Sealed F b) (hde : SameContent F d e) : e.Sealed F b where
  frozen := by rw [hde.frozenBox, h.frozen]
  own := by rw [stored?, hde.cell]; exact h.own
  bound n hn := by
    rw [hde.children] at hn
    rw [hde.box hn]
    exact h.bound n hn
  tight := by
    rw [hde.children, hde.childBoxes]
    exact h.tight

/-- Freezing seals a cell. -/
theorem sealed_freeze {cell : Cell α} (hcell : d.cell? c = some cell) (hbound : ∀ n ∈ d.children c, (d.box? n).isSome)
    (hb : (Box.tight? (d.childBoxes c)).or cell.box = some b) :
    (d.modifyCell c fun cell => { cell with box := some b, frozen := some b }).Sealed c b := by
  have hchildren : (d.modifyCell c fun cell => { cell with box := some b, frozen := some b }).children c =
      d.children c := by simp [children, cell?_modifyCell, hcell]
  have hbox : ∀ n ∈ d.children c,
      (d.modifyCell c fun cell => { cell with box := some b, frozen := some b }).box? n = d.box? n := by
    intro n hn
    cases n with
    | cell k => exact absurd rfl (cell_ne_of_mem_children hn k)
    | polygon p => rfl
    | inst i => rfl
  refine ⟨by simp [frozenBox?, cell?_modifyCell, hcell], by simp [stored?, cell?_modifyCell, hcell], ?_, ?_⟩
  · intro n hn
    rw [hchildren] at hn
    rw [hbox n hn]
    exact hbound n hn
  · intro hne
    rw [hchildren] at hne
    rw [childBoxes, hchildren, List.filterMap_congr hbox]
    obtain ⟨n, l, hl⟩ := List.exists_cons_of_ne_nil hne
    obtain ⟨box, hbox⟩ := Option.isSome_iff_exists.mp (hbound n (by rw [hl]; exact List.mem_cons_self))
    -- the first object has a box, so there is a box around all of them, and it was taken
    simpa [childBoxes, hl, hbox, Box.tight?] using hb

/-- Only freezing and unfreezing a cell change the box that it is frozen with. -/
theorem frozenBox?_after (hfreeze : op ≠ .freeze F) (hunfreeze : op ≠ .unfreeze F) :
    (d.after op).frozenBox? F = d.frozenBox? F := by
  rcases after_cases d op with hsame | happly
  · rw [hsame]
  generalize d.after op = d' at happly ⊢
  have hd' := apply_ok happly
  cases op with
  | addCell name =>
    rw [hd', frozenBox?, cell?_addCell]
    split
    · rename_i hF
      rw [hF, frozenBox?, cell?_size]
      rfl
    · rfl
  | addPolygon c name layer =>
    obtain ⟨p, hp⟩ := hd'
    obtain ⟨cell, -, -, -, rfl⟩ := addPolygon_ok hp
    refine (frozenBox?_modifyCell ?_).trans rfl
    exact fun _ => rfl
  | addInstance c name template =>
    obtain ⟨i, hi⟩ := hd'
    obtain ⟨cell, -, -, -, -, -, rfl⟩ := addInstance_ok hi
    refine (frozenBox?_modifyCell ?_).trans rfl
    exact fun _ => rfl
  | constrain c subject clause object =>
    obtain ⟨cell, -, -, -, -, rfl⟩ := constrain_ok hd'
    exact frozenBox?_modifyCell fun _ => rfl
  | setBox n box =>
    obtain ⟨k, cell, -, -, -, rfl⟩ := setBox_ok hd'
    exact ((agreeOutside_writeBox (Set.mem_singleton n) d _).frozen F).symm
  | freeze c =>
    obtain ⟨_, hb⟩ := hd'
    obtain ⟨cell, -, ⟨-, rfl⟩ | ⟨-, -, -, rfl⟩⟩ := freeze_ok hb
    · rfl
    · exact frozenBox?_modifyCell_of_ne fun hc => hfreeze (by rw [hc])
  | unfreeze c =>
    obtain ⟨-, rfl⟩ := unfreeze_ok hd'
    exact frozenBox?_modifyCell_of_ne fun hc => hunfreeze (by rw [hc])
  | propagate root =>
    rw [hd']
    exact ((agreeOutside_propagate d root).frozen F).symm
  | solve root config optimizer =>
    obtain ⟨r, hr⟩ := hd'
    exact ((agreeOutside_solveWith hr).frozen F).symm

/-- An operation keeps all frozen cells sealed. -/
theorem sealed_after (h : d.WellFormed) (hsealed : ∀ F b, d.frozenBox? F = some b → d.Sealed F b)
    (hb : (d.after op).frozenBox? F = some b) : (d.after op).Sealed F b := by
  rcases after_cases d op with hsame | happly
  · rw [hsame] at hb ⊢; exact hsealed F b hb
  by_cases hfreeze : op = .freeze F
  · subst hfreeze
    generalize d.after (.freeze F) = d' at happly hb ⊢
    obtain ⟨b', hb'⟩ := apply_ok happly
    obtain ⟨cell, hcell, ⟨-, rfl⟩ | ⟨-, hbound, hbox, rfl⟩⟩ := freeze_ok hb'
    · exact hsealed F b hb
    · have hsame : b' = b := by simpa [frozenBox?, cell?_modifyCell, hcell] using hb
      rw [← hsame]
      exact sealed_freeze hcell hbound hbox
  · by_cases hunfreeze : op = .unfreeze F
    · subst hunfreeze
      generalize d.after (.unfreeze F) = d' at happly hb ⊢
      obtain ⟨hcell, rfl⟩ := unfreeze_ok (apply_ok happly)
      obtain ⟨cell, hcell⟩ := Option.isSome_iff_exists.mp hcell
      simp [frozenBox?, cell?_modifyCell, hcell] at hb
    · rw [frozenBox?_after hfreeze hunfreeze] at hb
      exact (hsealed F b hb).of_sameContent (sameContent_after h hb hunfreeze)

/-- In a reachable design all frozen cells are sealed. -/
theorem Reachable.sealed (h : d.Reachable) (hb : d.frozenBox? F = some b) : d.Sealed F b := by
  obtain ⟨ops, rfl⟩ := h
  have key : (empty.run ops).WellFormed ∧
      ∀ F b, (empty.run ops).frozenBox? F = some b → (empty.run ops).Sealed F b := by
    refine run_of_after (P := fun e => e.WellFormed ∧ ∀ F b, e.frozenBox? F = some b → e.Sealed F b) ?_ ?_
    · exact fun e op _ he => ⟨he.1.after op, fun F b hb => sealed_after he.1 he.2 hb⟩
    refine ⟨wellFormed_empty, fun F b hb => ?_⟩
    rw [frozenBox?, show (empty : Design α).cell? F = none from rfl] at hb
    cases hb
  exact key.2 F b hb

/-- A run without an unfreezing of a frozen cell keeps it and its objects. -/
theorem sameContent_run (h : d.WellFormed) (hF : d.frozenBox? F = some b) {ops : List (Operation α)}
    (hops : .unfreeze F ∉ ops) : SameContent F d (d.run ops) := by
  have key : (d.run ops).WellFormed ∧ SameContent F d (d.run ops) := by
    refine run_of_after (P := fun e => e.WellFormed ∧ SameContent F d e) (fun e op hop he => ?_) ⟨h, .refl F d⟩
    refine ⟨he.1.after op, ?_⟩
    have hfrozen : e.frozenBox? F = some b := by rw [he.2.frozenBox, hF]
    refine he.2.trans (sameContent_after he.1 hfrozen ?_)
    rintro rfl
    exact hops hop
  exact key.2

/-- In every reachable design a frozen cell is sealed, and nothing that is done later, short of unfreezing it, changes
the cell or one of its objects. -/
theorem sealed_and_sameContent_run (h : d.Reachable) (hF : d.frozenBox? F = some b) :
    d.Sealed F b ∧ ∀ ops : List (Operation α), .unfreeze F ∉ ops → SameContent F d (d.run ops) :=
  ⟨h.sealed hF, fun _ hops => sameContent_run h.wellFormed hF hops⟩

theorem sealed_and_sameContent_run_viaPair : (empty.run viaPair).frozenBox? ⟨0⟩ = some ⟨0, 0, 2, 2⟩ ∧
    (empty.run viaPair).Sealed ⟨0⟩ ⟨0, 0, 2, 2⟩ ∧ SameContent ⟨0⟩ (empty.run viaPair)
      ((empty.run viaPair).run [.addPolygon ⟨0⟩ "late" "via1", .solve ⟨1⟩ .standard fun p => .solved p.initial,
        .setBox (.polygon ⟨0⟩) ⟨5, 5, 6, 6⟩, .propagate ⟨1⟩, .unfreeze ⟨1⟩]) := by
  have hreachable : (empty.run viaPair).Reachable := ⟨viaPair, rfl⟩
  have hfrozen : (empty.run viaPair).frozenBox? ⟨0⟩ = some ⟨0, 0, 2, 2⟩ := by decide +kernel
  have h := sealed_and_sameContent_run hreachable hfrozen
  exact ⟨hfrozen, h.1, h.2 _ (by simp)⟩

end RectLayout.Design
