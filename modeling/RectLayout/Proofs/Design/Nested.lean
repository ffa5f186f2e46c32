import RectLayout.Proofs.Design.Fitted

/-!
# Fitting boxes that nest

Boxes nest (`Design.Nests`) if objects are inside the boxes of their cells and instances have the sizes of the boxes of
their templates. The content of a cell can then only be smaller than its box, so fitting makes no box larger
(`Nests.shrinks`): by induction along the templates an instance keeps its corner and gets a size that is not
above the one it had, and a cell gets a box around objects that are still inside its old one. An instance of a frozen
template has the right size already and keeps its box (`Nests.box_propagate_of_frozenBox`).
-/

namespace RectLayout.Design

variable {d : Design Rat} {root c : CellId} {i : InstanceId}

/-- Objects are inside the boxes of their cells, and instances have the sizes of the boxes of their templates. -/
structure Nests (d : Design Rat) (root : CellId) : Prop where
  bound : ∀ n ∈ d.solved root, ∃ b, d.box? n = some b
  inside : ∀ c n outer inner, d.Active root c → n ∈ d.children c → d.box? (.cell c) = some outer →
    d.box? n = some inner → inner.Within outer
  sizes : ∀ i inst own, .inst i ∈ d.solved root → d.instance? i = some inst → d.box? (.inst i) = some own →
    ∃ drawn, d.box? (.cell inst.template) = some drawn ∧ drawn.width = own.width ∧ drawn.height = own.height

/-- Fitting leaves a node with a box that is inside the one it had. -/
def Shrinks (d : Design Rat) (root : CellId) (n : Node) : Prop :=
  ∃ before after, d.box? n = some before ∧ (d.propagate root).box? n = some after ∧ after.Within before

/-- A node that is not fitted keeps its box. -/
theorem Nests.shrinks_of_not_fitted (hn : d.Nests root) {n : Node} (hs : n ∈ d.solved root) (hnot : n ∉ d.fitted root) :
    d.Shrinks root n := by
  obtain ⟨b, hb⟩ := hn.bound n hs
  exact ⟨b, b, hb, by rw [← (agreeOutside_propagate d root).box hnot, hb], .refl b⟩

/-- An instance of a frozen template keeps its box, as it has the size of the box that the template is frozen with. -/
theorem Nests.box_propagate_of_frozenBox (hn : d.Nests root) (h : d.WellFormed) (hc : d.Active root c)
    (hi : .inst i ∈ d.children c) {inst : Instance Rat} (hinst : d.instance? i = some inst) {b : Box Rat}
    (hfrozen : d.frozenBox? inst.template = some b) : (d.propagate root).box? (.inst i) = d.box? (.inst i) := by
  obtain ⟨own, hown⟩ := hn.bound _ (hc.child_mem_solved hi)
  obtain ⟨drawn, hdrawn, hwidth, hheight⟩ := hn.sizes i inst own (hc.child_mem_solved hi) hinst hown
  obtain rfl := Option.some.inj (hdrawn.symm.trans (box?_of_frozenBox hfrozen))
  have hcontent : (d.propagate root).contentBox? inst.template = some drawn := by
    refine contentBox?_of_frozenBox ?_
    rw [frozenBox?, ← (agreeOutside_propagate d root).frozen]
    exact hfrozen
  rw [box_inst_propagate h hc hi hinst hown hcontent, Box.movedTo_eq hwidth hheight, hown]

/-- If no template is active, all instances keep their boxes. -/
theorem Nests.box_propagate_of_templates (hn : d.Nests root) (h : d.WellFormed) (hi : .inst i ∈ d.solved root)
    (hnone : ∀ c t, d.Active root c → t ∈ d.templates c → ¬ d.isActive t) :
    (d.propagate root).box? (.inst i) = d.box? (.inst i) := by
  obtain ⟨c, hc, hcell | hchild⟩ := hi
  · cases hcell
  · obtain ⟨inst, hinst⟩ := h.exists_instance hchild
    have ht : inst.template ∈ d.templates c := mem_templates_iff.mpr ⟨i, inst, hchild, hinst, rfl⟩
    obtain ⟨b, hb⟩ := (h.isActive_or_frozenBox ht).resolve_left (hnone c _ hc ht)
    exact hn.box_propagate_of_frozenBox h hc hchild hinst hb

/-- An instance shrinks if the box of its template does. -/
theorem Nests.shrinks_inst (hn : d.Nests root) (h : d.WellFormed) (hc : d.Active root c) (hi : .inst i ∈ d.children c)
    (htemplates : ∀ t ∈ d.templates c, d.Active root t → d.Shrinks root (.cell t)) : d.Shrinks root (.inst i) := by
  obtain ⟨inst, hinst⟩ := h.exists_instance hi
  have ht : inst.template ∈ d.templates c := mem_templates_iff.mpr ⟨i, inst, hi, hinst, rfl⟩
  obtain ⟨own, hown⟩ := hn.bound _ (hc.child_mem_solved hi)
  rcases h.isActive_or_frozenBox ht with hlive | ⟨b, hb⟩
  · have hactive := hc.template ht hlive
    obtain ⟨drawn, hdrawn, hwidth, hheight⟩ := hn.sizes i inst own (hc.child_mem_solved hi) hinst hown
    obtain ⟨before, content, hbefore, hafter, hwithin⟩ := htemplates _ ht hactive
    obtain rfl := Option.some.inj (hdrawn.symm.trans hbefore)
    have hlive' : (d.propagate root).isActive inst.template := by
      rw [← (agreeOutside_propagate d root).isActive]
      exact hlive
    have hcontent : (d.propagate root).contentBox? inst.template = some content := by
      rw [(fitsContent_propagate h hactive).contentBox hlive', hafter]
    refine ⟨own, _, hown, box_inst_propagate h hc hi hinst hown hcontent, ?_⟩
    exact Box.within_of_movedTo (hwithin.width_le.trans hwidth.le) (hwithin.height_le.trans hheight.le)
  · exact ⟨own, own, hown, by rw [hn.box_propagate_of_frozenBox h hc hi hinst hb, hown], .refl own⟩

/-- A cell shrinks if its objects do, since it had a box around them. -/
theorem Nests.shrinks_cell (hn : d.Nests root) (h : d.WellFormed) (hc : d.Active root c)
    (hchildren : ∀ n ∈ d.children c, d.Shrinks root n) : d.Shrinks root (.cell c) := by
  have hagree := agreeOutside_propagate d root
  by_cases hempty : d.children c = []
  · exact hn.shrinks_of_not_fitted (cell_mem_solved_iff.mpr hc) (by simp [fitted, hempty])
  · obtain ⟨outer, houter⟩ := hn.bound _ (cell_mem_solved_iff.mpr hc)
    have hboxes : (d.propagate root).childBoxes c ≠ [] := by
      obtain ⟨n, hmem⟩ := List.exists_mem_of_ne_nil _ hempty
      obtain ⟨-, after, -, hafter, -⟩ := hchildren n hmem
      rw [hagree.children] at hmem
      exact List.ne_nil_of_mem (List.mem_filterMap.mpr ⟨n, hmem, hafter⟩)
    have hactive : (d.propagate root).isActive c := by
      rw [← hagree.isActive]
      exact hc.isActive
    obtain ⟨b, hb⟩ := Box.exists_tight hboxes
    refine ⟨outer, b, houter, by rw [← (fitsContent_propagate h hc).tight_eq hactive hboxes, hb], ?_⟩
    refine Box.tight_induction (P := (·.Within outer)) (fun _ _ => Box.Within.union) (fun a ha => ?_) hb
    obtain ⟨n, hmem, hna⟩ := List.mem_filterMap.mp ha
    rw [← hagree.children] at hmem
    obtain ⟨before, after, hbefore, hafter, hwithin⟩ := hchildren n hmem
    obtain rfl := Option.some.inj (hna.symm.trans hafter)
    exact hwithin.trans (hn.inside c n outer before hc hmem houter hbefore)

/-- Fitting makes no box larger if the boxes nest. -/
theorem Nests.shrinks (hn : d.Nests root) (h : d.WellFormed) {n : Node} (hs : n ∈ d.solved root) :
    d.Shrinks root n := by
  have hchild : ∀ c, d.Active root c → (∀ t ∈ d.templates c, d.Active root t → d.Shrinks root (.cell t)) →
      ∀ n ∈ d.children c, d.Shrinks root n := by
    intro c hc htemplates n hmem
    cases n with
    | cell k => exact absurd rfl (cell_ne_of_mem_children hmem k)
    | polygon p => exact hn.shrinks_of_not_fitted (hc.child_mem_solved hmem) (by simp [fitted])
    | inst i => exact hn.shrinks_inst h hc hmem htemplates
  have hcell : ∀ c, d.Active root c → d.Shrinks root (.cell c) := by
    intro c
    induction c using h.template_induction with
    | _ c ih => exact fun hc => hn.shrinks_cell h hc (hchild c hc ih)
  obtain ⟨c, hc, rfl | hmem⟩ := hs
  · exact hcell c hc
  · exact hchild c hc (fun t _ ht => hcell t ht) n hmem

end RectLayout.Design
