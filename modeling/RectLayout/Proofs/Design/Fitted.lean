import RectLayout.Proofs.Box
import RectLayout.Proofs.Design.Flatten
import RectLayout.Proofs.Frozen

/-!
# What fitting achieves

A cell fits its content (`Design.FitsContent`) if its placed instances have the size of what they draw and its box is
the one around its objects. Fitting one cell makes it fit (`fitsContent_refit`). What comes later keeps it so, as long
as the cell and its templates are left alone (`FitsContent.of_sameContent`); and they are, as templates are fitted
before the cells that draw them, each once. So after propagation every active cell fits (`fitsContent_propagate`). A
property of boxes that fitting can keep (`FittingKeeps`), such as to be there or to be on the grid, holds of all boxes of
a solve after propagation if it held before, by induction along the templates (`WellFormed.settled_propagate`).
-/

namespace RectLayout.Design

open Walk

variable {α : Type} {d e : Design α} {root c k t : CellId} {i j : InstanceId}

/-! ## The order of fitting -/

theorem activeTemplates_rank (h : d.WellFormed) (c : CellId) :
    ∀ t ∈ d.activeTemplates c, (d.reachable t).length < (d.reachable c).length :=
  fun _ ht => length_reachable_lt h (mem_activeTemplates_iff.mp ht).1

theorem isSome_cell_of_isActive (h : d.isActive c) : (d.cell? c).isSome := by
  obtain ⟨cell, hcell, -⟩ := isActive_iff.mp h
  rw [hcell]
  rfl

/-- `activePostorder` lists the active cells, each once and after its active templates. -/
theorem activePostorder_spec (h : d.WellFormed) (hroot : d.isActive root) :
    (∀ c, c ∈ d.activePostorder root ↔ d.Active root c) ∧ (d.activePostorder root).Nodup ∧
      Ordered d.activeTemplates (d.activePostorder root) := by
  have hrank := activeTemplates_rank h
  have hle := length_reachable_le_size h (isSome_cell_of_isActive hroot)
  have hfuel : (d.reachable root).length < d.cells.size + 1 := by omega
  unfold activePostorder
  rw [if_pos hroot]
  refine ⟨fun c => ?_, nodup_postorder hrank _ List.nodup_nil root, (ordered_postorder hrank hfuel ordered_nil).2⟩
  rw [mem_postorder_iff hrank hfuel, Active]
  simp [hroot]

/-- After a cell, neither the cell nor one of its templates is fitted again. -/
theorem not_mem_after_of_activePostorder (h : d.WellFormed) {before after : List CellId}
    (hl : d.activePostorder root = before ++ c :: after) : c ∉ after ∧ ∀ t ∈ d.templates c, t ∉ after := by
  have hc : d.Active root c := active_of_mem_activePostorder (by rw [hl]; simp)
  obtain ⟨-, hnodup, hordered⟩ := activePostorder_spec h hc.1
  rw [hl] at hnodup
  obtain ⟨-, hafter, hdisjoint⟩ := List.nodup_append.mp hnodup
  refine ⟨(List.nodup_cons.mp hafter).1, fun t ht hmem => ?_⟩
  have hactive : d.isActive t := (active_of_mem_activePostorder (by rw [hl]; simp [hmem])).isActive
  have hbefore : t ∈ before := hordered before c after hl (mem_activeTemplates_iff.mpr ⟨ht, hactive⟩)
  exact hdisjoint t hbefore t (List.mem_cons_of_mem c hmem) rfl

/-! ## Cells that fit -/

variable [Scalar α]

/-- An instance has the size of what it draws. -/
def InstanceFits (d : Design α) (i : InstanceId) : Prop := ∀ inst placed content, d.instance? i = some inst →
  inst.box = some placed → d.contentBox? inst.template = some content → placed = content.movedTo placed.x1 placed.y1

/-- The instances of a cell have the size of what they draw, and its box is the one around its objects, if some of them
have boxes. -/
structure FitsContent (d : Design α) (c : CellId) : Prop where
  instances : ∀ i, .inst i ∈ d.children c → d.InstanceFits i
  box : ∀ b, Box.tight? (d.childBoxes c) = some b → d.stored? (.cell c) = some b

theorem SameContent.contentBox (h : SameContent c d e) : e.contentBox? c = d.contentBox? c := by
  rw [contentBox?, contentBox?, h.cell, h.childBoxes]

theorem InstanceFits.congr (h : d.InstanceFits i) (hi : e.instance? i = d.instance? i)
    (ht : ∀ inst, d.instance? i = some inst → SameContent inst.template d e) : e.InstanceFits i := by
  intro inst placed content hinst hplaced hcontent
  rw [hi] at hinst
  rw [(ht inst hinst).contentBox] at hcontent
  exact h inst placed content hinst hplaced hcontent

/-- A cell fits as long as it and its templates stay the same. -/
theorem FitsContent.of_sameContent (h : d.FitsContent c) (hc : SameContent c d e)
    (ht : ∀ t ∈ d.templates c, SameContent t d e) : e.FitsContent c where
  instances i hi := by
    rw [hc.children] at hi
    refine (h.instances i hi).congr (hc.inst i hi) fun inst hinst => ?_
    exact ht _ (mem_templates_iff.mpr ⟨i, inst, hi, hinst, rfl⟩)
  box b hb := by
    rw [hc.childBoxes] at hb
    rw [stored?, hc.cell]
    exact h.box b hb

/-- The content of an active cell that fits has the box of the cell. -/
theorem FitsContent.contentBox (h : d.FitsContent c) (hc : d.isActive c) : d.contentBox? c = d.box? (.cell c) := by
  obtain ⟨cell, hcell, hfrozen⟩ := isActive_iff.mp hc
  have hstored : d.stored? (.cell c) = cell.box := by simp [stored?, hcell]
  simp only [contentBox?, box?, hcell, hfrozen, Option.bind_some, Option.none_or]
  cases hb : Box.tight? (d.childBoxes c) with
  | none => rfl
  | some b => rw [← hstored, h.box b hb]; rfl

/-- The box of an active cell that fits is the one around its objects, if one of them has a box. -/
theorem FitsContent.tight_eq (h : d.FitsContent c) (hc : d.isActive c) (hne : d.childBoxes c ≠ []) :
    Box.tight? (d.childBoxes c) = d.box? (.cell c) := by
  obtain ⟨b, hb⟩ := Box.exists_tight hne
  rw [← h.contentBox hc]
  obtain ⟨cell, hcell, hfrozen⟩ := isActive_iff.mp hc
  simp only [contentBox?, hcell, hfrozen, hb, Option.some_or]

/-! ## Fitting one cell -/

omit [Scalar α] in
/-- A template is active or frozen. -/
theorem WellFormed.isActive_or_frozenBox (h : d.WellFormed) (ht : t ∈ d.templates c) :
    d.isActive t ∨ ∃ b, d.frozenBox? t = some b := by
  obtain ⟨cell, hcell⟩ := Option.isSome_iff_exists.mp (isSome_cell_of_templates h ht)
  cases hfrozen : cell.frozen with
  | none => exact .inl (isActive_iff.mpr ⟨cell, hcell, hfrozen⟩)
  | some b => exact .inr ⟨b, by simp [frozenBox?, hcell, hfrozen]⟩

omit [Scalar α] in
/-- An instance that a cell lists exists. -/
theorem WellFormed.exists_instance (h : d.WellFormed) (hi : .inst i ∈ d.children c) :
    ∃ inst, d.instance? i = some inst := by
  obtain ⟨inst, hinst, -⟩ := Option.map_eq_some_iff.mp ((h.mem_children_iff _ c).mp hi).1
  exact ⟨inst, hinst⟩

omit [Scalar α] in
/-- A cell is no template of its own. -/
theorem WellFormed.template_ne (h : d.WellFormed) (ht : t ∈ d.templates c) : t ≠ c := by
  rintro rfl
  exact h.acyclic t t ht .refl

omit [Scalar α] in
/-- What changes only boxes of objects of `k`, and of `k` itself, keeps all other cells. -/
theorem WellFormed.sameContent_of_children (h : d.WellFormed) (hne : k ≠ c)
    (hde : AgreeOutside {n | n = .cell k ∨ n ∈ d.children k} d e) : SameContent c d e := by
  refine hde.sameContent ?_ ?_
  · rintro (hc | hc)
    · exact hne (Node.cell.inj hc).symm
    · exact cell_ne_of_mem_children hc c rfl
  · rintro n hn (rfl | hk)
    · exact cell_ne_of_mem_children hn k rfl
    · exact hne (h.eq_of_mem_children hk hn)

theorem agreeOutside_refitInstance_children (hj : .inst j ∈ d.children k) :
    AgreeOutside {n | n = .cell k ∨ n ∈ d.children k} d (d.refitInstance j) :=
  agreeOutside_refitInstance (.inr hj) d

theorem agreeOutside_refit_children (d : Design α) (k : CellId) :
    AgreeOutside {n | n = .cell k ∨ n ∈ d.children k} d (d.refit k) :=
  agreeOutside_refit (fun _ => .inl rfl) fun _ hi => .inr hi

theorem WellFormed.refit (h : d.WellFormed) (k : CellId) : (d.refit k).WellFormed :=
  (agreeOutside_refit_children d k).sameStructure.wellFormed h

theorem WellFormed.sameContent_refit (h : d.WellFormed) (hne : k ≠ c) : SameContent c d (d.refit k) :=
  h.sameContent_of_children hne (agreeOutside_refit_children d k)

/-- An instance that has a box and draws something takes the size of what it draws; any other stays as it is. -/
theorem refitInstance_cases (d : Design α) (i : InstanceId) :
    (∃ inst placed content, d.instance? i = some inst ∧ inst.box = some placed ∧
      d.contentBox? inst.template = some content ∧
      d.refitInstance i = d.writeBox (.inst i) (some (content.movedTo placed.x1 placed.y1))) ∨
    (d.InstanceFits i ∧ d.refitInstance i = d) := by
  unfold refitInstance
  split
  · rename_i hinst
    refine .inr ⟨fun inst placed content hinst' => ?_, rfl⟩
    rw [hinst] at hinst'
    cases hinst'
  · rename_i inst hinst
    split
    · rename_i placed content hplaced hcontent
      exact .inl ⟨inst, placed, content, hinst, hplaced, hcontent, rfl⟩
    · rename_i hnone
      refine .inr ⟨fun inst' placed content hinst' hplaced hcontent => ?_, rfl⟩
      obtain rfl := Option.some.inj (hinst.symm.trans hinst')
      exact absurd hcontent (hnone placed content hplaced)

/-- Fitting an instance makes it fit, and the other instances of its cell fit as before. -/
theorem instanceFits_refitInstance (h : d.WellFormed) (hi : .inst i ∈ d.children c) (hj : .inst j ∈ d.children c)
    (hfits : i = j ∨ d.InstanceFits i) : (d.refitInstance j).InstanceFits i := by
  have htemplate : ∀ inst, d.instance? i = some inst → SameContent inst.template d (d.refitInstance j) := by
    intro inst hinst
    have ht : inst.template ∈ d.templates c := mem_templates_iff.mpr ⟨i, inst, hi, hinst, rfl⟩
    exact h.sameContent_of_children (h.template_ne ht).symm (agreeOutside_refitInstance_children hj)
  by_cases hij : i = j
  · subst hij
    rcases refitInstance_cases d i with ⟨inst, placed, content, hinst, -, hcontent, heq⟩ | ⟨hfits, heq⟩
    · intro inst' placed' content' hinst' hplaced' hcontent'
      have hsame := (htemplate inst hinst).contentBox
      rw [heq, instance?_writeBox, if_pos rfl, hinst] at hinst'
      obtain rfl := Option.some.inj hinst'
      obtain rfl := Option.some.inj hplaced'
      obtain rfl := Option.some.inj (hcontent.symm.trans (hsame.symm.trans hcontent'))
      rfl
    · rwa [heq]
  · refine (hfits.resolve_left hij).congr ?_ htemplate
    have hne : Node.inst i ∉ ({.inst j} : Set Node) := by simpa using hij
    exact ((agreeOutside_refitInstance (Set.mem_singleton (Node.inst j)) d).instance_eq hne).symm

/-- Fitting a list of instances of a cell makes all of them fit. -/
theorem instanceFits_foldl (h : d.WellFormed) {l : List InstanceId} (hl : ∀ j ∈ l, .inst j ∈ d.children c)
    (hi : .inst i ∈ d.children c) (hfits : i ∈ l ∨ d.InstanceFits i) : (l.foldl refitInstance d).InstanceFits i := by
  induction l generalizing d with
  | nil => exact hfits.resolve_left List.not_mem_nil
  | cons j l ih =>
    have hj := hl j List.mem_cons_self
    have hagree := agreeOutside_refitInstance_children hj
    refine ih (hagree.sameStructure.wellFormed h) (fun j' hj' => ?_) ?_ ?_
    · rw [← hagree.children]
      exact hl j' (List.mem_cons_of_mem j hj')
    · rwa [← hagree.children]
    · rcases hfits with hmem | hfits
      · rcases List.mem_cons.mp hmem with hij | hmem
        · exact .inr (instanceFits_refitInstance h hi hj (.inl hij))
        · exact .inl hmem
      · exact .inr (instanceFits_refitInstance h hi hj (.inr hfits))

/-- Fitting the box of a cell keeps its instances and gives it the box around its objects. -/
theorem fitsContent_refitBox (h : d.WellFormed) (hfits : ∀ i, .inst i ∈ d.children c → d.InstanceFits i) :
    (d.refitBox c).FitsContent c := by
  have hagree : AgreeOutside {.cell c} d (d.refitBox c) := agreeOutside_refitBox fun _ => Set.mem_singleton _
  have hchildBoxes : (d.refitBox c).childBoxes c = d.childBoxes c := by
    rw [childBoxes, childBoxes, ← hagree.children]
    exact List.filterMap_congr fun n hn => (hagree.box (by simpa using cell_ne_of_mem_children hn c)).symm
  refine ⟨fun i hi => ?_, fun b hb => ?_⟩
  · rw [← hagree.children] at hi
    refine (hfits i hi).congr (hagree.instance_eq (by simp)).symm fun inst hinst => ?_
    have ht : inst.template ∈ d.templates c := mem_templates_iff.mpr ⟨i, inst, hi, hinst, rfl⟩
    refine h.sameContent_of_children (h.template_ne ht).symm (hagree.mono ?_)
    rintro n rfl
    exact .inl rfl
  · rw [hchildBoxes] at hb
    have hlive : (d.owner? (.cell c)).isSome := by
      rw [isSome_owner_cell_iff]
      by_contra hnone
      simp [childBoxes, children, Option.not_isSome_iff_eq_none.mp hnone, Box.tight?] at hb
    rw [refitBox, hb]
    simp [stored?_writeBox, hlive]

/-- Fitting a cell makes it fit its content. -/
theorem fitsContent_refit (h : d.WellFormed) (c : CellId) : (d.refit c).FitsContent c := by
  cases hcell : d.cell? c with
  | none =>
    have hchildren : d.children c = [] := by simp [children, hcell]
    rw [Design.refit, hcell]
    exact ⟨fun i hi => by simp [hchildren] at hi, fun b hb => by simp [childBoxes, hchildren, Box.tight?] at hb⟩
  | some cell =>
    have hmem : ∀ i, i ∈ cell.instances ↔ .inst i ∈ d.children c := by
      intro i
      rw [inst_mem_children_iff]
      simp [hcell]
    have hagree : AgreeOutside {n | n = .cell c ∨ n ∈ d.children c} d (cell.instances.foldl refitInstance d) :=
      agreeOutside_foldl fun i hi e _ => agreeOutside_refitInstance (.inr ((hmem i).mp hi)) e
    rw [Design.refit, hcell]
    refine fitsContent_refitBox (hagree.sameStructure.wellFormed h) fun i hi => ?_
    rw [← hagree.children] at hi
    exact instanceFits_foldl h (fun j hj => (hmem j).mp hj) hi (.inl ((hmem i).mpr hi))

/-! ## Propagation -/

theorem WellFormed.foldl_refit (h : d.WellFormed) (l : List CellId) : (l.foldl Design.refit d).WellFormed := by
  induction l generalizing d with
  | nil => exact h
  | cons k l ih => exact ih (h.refit k)

/-- Fitting other cells keeps a cell. -/
theorem WellFormed.sameContent_foldl_refit (h : d.WellFormed) {l : List CellId} (hc : c ∉ l) :
    SameContent c d (l.foldl Design.refit d) := by
  induction l generalizing d with
  | nil => exact .refl c d
  | cons k l ih =>
    rw [List.mem_cons, not_or] at hc
    exact (h.sameContent_refit (Ne.symm hc.1)).trans (ih (h.refit k) hc.2)

theorem agreeOutside_foldl_refit (d : Design α) (l : List CellId) :
    AgreeOutside Set.univ d (l.foldl Design.refit d) :=
  agreeOutside_foldl fun k _ e _ => (agreeOutside_refit_children e k).mono (Set.subset_univ _)

/-- After propagation every active cell fits its content. -/
theorem fitsContent_propagate (h : d.WellFormed) (hc : d.Active root c) : (d.propagate root).FitsContent c := by
  obtain ⟨before, after, hl⟩ := List.append_of_mem (((activePostorder_spec h hc.1).1 c).mpr hc)
  obtain ⟨hself, htemplates⟩ := not_mem_after_of_activePostorder h hl
  have hbefore := (h.foldl_refit before).refit c
  have hagree := (agreeOutside_foldl_refit d before).trans
    ((agreeOutside_refit_children (before.foldl Design.refit d) c).mono (Set.subset_univ _))
  rw [propagate, hl, List.foldl_append, List.foldl_cons]
  refine (fitsContent_refit (h.foldl_refit before) c).of_sameContent (hbefore.sameContent_foldl_refit hself) ?_
  intro t ht
  rw [← hagree.templates] at ht
  exact hbefore.sameContent_foldl_refit (htemplates t ht)

/-- After propagation an instance of an active cell is where it was placed, with the size of what it draws then. -/
theorem box_inst_propagate (h : d.WellFormed) (hc : d.Active root c) (hi : .inst i ∈ d.children c) {inst : Instance α}
    (hinst : d.instance? i = some inst) {placed content : Box α} (hplaced : d.box? (.inst i) = some placed)
    (hcontent : (d.propagate root).contentBox? inst.template = some content) :
    (d.propagate root).box? (.inst i) = some (content.movedTo placed.x1 placed.y1) := by
  have hagree := agreeOutside_propagate d root
  have hcorner := storedCorner_propagate d root i
  have hstored : d.stored? (.inst i) = some placed := hplaced
  rw [storedCorner?, storedCorner?, hstored] at hcorner
  obtain ⟨own, hown, hcorner⟩ := Option.map_eq_some_iff.mp hcorner
  obtain ⟨inst', hinst', hbox⟩ := Option.bind_eq_some_iff.mp hown
  have htemplate := hagree.template i
  rw [hinst, hinst', Option.map_some, Option.map_some, Option.some.injEq] at htemplate
  rw [htemplate] at hcontent
  rw [hagree.children] at hi
  have hfits := (fitsContent_propagate h hc).instances i hi inst' own content hinst' hbox hcontent
  simp only [Prod.mk.injEq] at hcorner
  rw [hcorner.1, hcorner.2] at hfits
  rw [← hfits]
  exact hown

/-! ## Boxes after propagation -/

/-- The boxes of the nodes that are solved for have `P`, and so have those of the frozen cells they draw. -/
structure BoxesFrom (P : Box α → Prop) (d : Design α) (root : CellId) : Prop where
  solved : ∀ n ∈ d.solved root, ∃ b, d.box? n = some b ∧ P b
  frozen : ∀ c t b, d.Active root c → t ∈ d.templates c → d.frozenBox? t = some b → P b

/-- The box around boxes with `P` has it, and so has the content of a template when it is put where a box with `P` is. -/
structure FittingKeeps (P : Box α → Prop) : Prop where
  union : ∀ a b, P a → P b → P (a.union b)
  movedTo : ∀ placed content, P placed → P content → P (content.movedTo placed.x1 placed.y1)

/-- The active cells fit their content, and the boxes of a solve are there and have `P`. -/
structure Settled (P : Box α → Prop) (d : Design α) (root : CellId) : Prop where
  fits : ∀ c, d.Active root c → d.FitsContent c
  boxes : d.BoxesFrom P root

variable {P : Box α → Prop}

/-- The content of a template has a box with `P`, be the template frozen with one, or active and fitted to one. -/
theorem WellFormed.exists_content (h : d.WellFormed) (ht : t ∈ d.templates c)
    (hfrozen : ∀ b, d.frozenBox? t = some b → P b)
    (hactive : d.isActive t → d.FitsContent t ∧ ∃ b, d.box? (.cell t) = some b ∧ P b) :
    ∃ b, d.contentBox? t = some b ∧ P b := by
  rcases h.isActive_or_frozenBox ht with hlive | ⟨b, hb⟩
  · obtain ⟨hfits, hbox⟩ := hactive hlive
    rwa [hfits.contentBox hlive]
  · exact ⟨b, contentBox?_of_frozenBox hb, hfrozen b hb⟩

theorem Settled.exists_content (hs : d.Settled P root) (h : d.WellFormed) (hc : d.Active root c)
    (ht : t ∈ d.templates c) : ∃ b, d.contentBox? t = some b ∧ P b :=
  h.exists_content ht (fun b => hs.boxes.frozen c t b hc ht) fun hactive =>
    ⟨hs.fits t (hc.template ht hactive), hs.boxes.solved _ (cell_mem_solved_iff.mpr (hc.template ht hactive))⟩

namespace BoxesFrom

/-- An object of a cell has a box with `P` after fitting, if the content of the cell's templates has. -/
theorem child (hs : d.BoxesFrom P root) (hP : FittingKeeps P) (h : d.WellFormed) (hc : d.Active root c)
    (hcontent : ∀ t ∈ d.templates c, ∃ b, (d.propagate root).contentBox? t = some b ∧ P b) {n : Node}
    (hn : n ∈ d.children c) : ∃ b, (d.propagate root).box? n = some b ∧ P b := by
  have hagree := agreeOutside_propagate d root
  obtain ⟨placed, hplaced, hplacedP⟩ := hs.solved n (hc.child_mem_solved hn)
  cases n with
  | cell k => exact absurd rfl (cell_ne_of_mem_children hn k)
  | polygon p =>
    have hnot : Node.polygon p ∉ d.fitted root := by simp [fitted]
    exact ⟨placed, by rw [← hagree.box hnot, hplaced], hplacedP⟩
  | inst i =>
    obtain ⟨inst, hinst⟩ := h.exists_instance hn
    obtain ⟨content, hcontent, hcontentP⟩ := hcontent _ (mem_templates_iff.mpr ⟨i, inst, hn, hinst, rfl⟩)
    exact ⟨_, box_inst_propagate h hc hn hinst hplaced hcontent, hP.movedTo placed content hplacedP hcontentP⟩

/-- A cell has a box with `P` after fitting if its objects have. -/
theorem cell (hs : d.BoxesFrom P root) (hP : FittingKeeps P) (h : d.WellFormed) (hc : d.Active root c)
    (hchild : ∀ n ∈ d.children c, ∃ b, (d.propagate root).box? n = some b ∧ P b) :
    ∃ b, (d.propagate root).box? (.cell c) = some b ∧ P b := by
  have hagree := agreeOutside_propagate d root
  by_cases hempty : d.children c = []
  · have hnot : Node.cell c ∉ d.fitted root := by simp [fitted, hempty]
    rw [← hagree.box hnot]
    exact hs.solved _ (cell_mem_solved_iff.mpr hc)
  · have hboxes : (d.propagate root).childBoxes c ≠ [] := by
      obtain ⟨n, hn⟩ := List.exists_mem_of_ne_nil _ hempty
      obtain ⟨b, hb, -⟩ := hchild n hn
      rw [hagree.children] at hn
      exact List.ne_nil_of_mem (List.mem_filterMap.mpr ⟨n, hn, hb⟩)
    have hactive : (d.propagate root).isActive c := by
      rw [← hagree.isActive]
      exact hc.isActive
    rw [← (fitsContent_propagate h hc).tight_eq hactive hboxes]
    obtain ⟨b, hb⟩ := Box.exists_tight hboxes
    refine ⟨b, hb, Box.tight_induction hP.union (fun a ha => ?_) hb⟩
    obtain ⟨n, hn, hna⟩ := List.mem_filterMap.mp ha
    rw [← hagree.children] at hn
    obtain ⟨b', hb', hbP⟩ := hchild n hn
    rwa [Option.some.inj (hna.symm.trans hb')]

end BoxesFrom

/-- Fitting settles boxes that are there, and keeps what it can keep of them. -/
theorem WellFormed.settled_propagate (h : d.WellFormed) (hP : FittingKeeps P) (hs : d.BoxesFrom P root) :
    (d.propagate root).Settled P root := by
  have hagree := agreeOutside_propagate d root
  have hd := hagree.sameStructure.wellFormed h
  have hfrozen : ∀ c t b, d.Active root c → t ∈ d.templates c → (d.propagate root).frozenBox? t = some b → P b := by
    intro c t b hc ht hb
    rw [frozenBox?, ← hagree.frozen] at hb
    exact hs.frozen c t b hc ht hb
  have hcontent : ∀ c, d.Active root c →
      (∀ t, d.Active root t → t ∈ d.templates c → ∃ b, (d.propagate root).box? (.cell t) = some b ∧ P b) →
      ∀ t ∈ d.templates c, ∃ b, (d.propagate root).contentBox? t = some b ∧ P b := by
    intro c hc hcell t ht
    have ht' := ht
    rw [hagree.templates] at ht'
    refine hd.exists_content ht' (fun b => hfrozen c t b hc ht) fun hactive => ?_
    rw [← hagree.isActive] at hactive
    exact ⟨fitsContent_propagate h (hc.template ht hactive), hcell t (hc.template ht hactive) ht⟩
  have hcell : ∀ c, d.Active root c → ∃ b, (d.propagate root).box? (.cell c) = some b ∧ P b := by
    intro c
    induction c using h.template_induction with
    | _ c ih =>
      exact fun hc => hs.cell hP h hc fun n hn => hs.child hP h hc (hcontent c hc fun t htc ht => ih t ht htc) hn
  refine ⟨fun c hc => fitsContent_propagate h (hagree.active.mpr hc), fun n hn => ?_, fun c t b hc ht => ?_⟩
  · rw [← hagree.solved] at hn
    obtain ⟨c, hc, rfl | hn⟩ := hn
    · exact hcell c hc
    · exact hs.child hP h hc (hcontent c hc fun t htc _ => hcell t htc) hn
  · rw [← hagree.templates] at ht
    exact hfrozen c t b (hagree.active.mpr hc) ht

end RectLayout.Design
