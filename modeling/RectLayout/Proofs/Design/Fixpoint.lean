import RectLayout.Proofs.Design.Fitted

/-!
# One pass of fitting is enough

Fitting changes the boxes of an active cell only if one of its objects has a box, and of an instance in it only if it
has a box and something to draw (`Design.refitted`). One step keeps all others, and where the instances start
(`RefittedFrom.refitInstance`, `RefittedFrom.refitBox`), so a pass does (`refittedFrom_propagate`); which objects have
boxes and which cells have content, it cannot change (`RefittedFrom.isSome_box`, `RefittedFrom.isSome_content`). After
the pass all active cells fit their content, with every instance where it was. A cell that fits is not changed by
fitting (`refit_of_fits`), hence a second pass changes nothing (`fittedBelow_propagate`).
-/

namespace RectLayout.Design

variable {α : Type} {d e : Design α} {root c t : CellId} {i : InstanceId} {n : Node}

/-- Writing the box that is stored changes nothing. -/
theorem writeBox_of_stored {b : Option (Box α)} (h : d.stored? n = b) : d.writeBox n b = d := by
  have hagree := agreeOutside_writeBox (Set.mem_singleton n) d b
  refine (AgreeOutside.eq ⟨hagree.cell, hagree.polygon, hagree.inst, fun m _ => ?_⟩).symm
  rw [stored?_writeBox]
  split
  · rename_i hm
    rw [← hm.1, h]
  · rfl

theorem isSome_storedCorner : (d.storedCorner? n).isSome = (d.stored? n).isSome := Option.isSome_map

variable [Scalar α]

/-! ## Cells that fit stay -/

theorem refitInstance_of_fits (h : d.InstanceFits i) : d.refitInstance i = d := by
  rcases refitInstance_cases d i with ⟨inst, placed, content, hinst, hplaced, hcontent, heq⟩ | ⟨-, heq⟩
  · rw [heq, ← h inst placed content hinst hplaced hcontent]
    exact writeBox_of_stored (by simp [stored?, hinst, hplaced])
  · exact heq

/-- Fitting a cell that fits changes nothing. -/
theorem refit_of_fits (h : d.FitsContent c) : d.refit c = d := by
  unfold Design.refit
  split
  · rfl
  · rename_i cell hcell
    have hinstances : cell.instances.foldl refitInstance d = d := by
      refine List.foldlRecOn (motive := fun e => e = d) cell.instances _ rfl fun e he i hi => ?_
      rw [he]
      exact refitInstance_of_fits (h.instances i (inst_mem_children_iff.mpr ⟨cell, hcell, hi⟩))
    rw [hinstances]
    unfold refitBox
    split
    · rename_i box hbox
      exact writeBox_of_stored (h.box box hbox)
    · rfl

/-! ## What a pass leaves alone -/

/-- The nodes whose boxes a pass of fitting sets: active cells with an object that has a box, and the instances in
active cells that have a box and whose templates have content. -/
def refitted (d : Design α) (root : CellId) : Set Node :=
  {n | (∃ c, d.Active root c ∧ n = .cell c ∧ ∃ m ∈ d.children c, (d.box? m).isSome) ∨
    ∃ c i inst, d.Active root c ∧ .inst i ∈ d.children c ∧ n = .inst i ∧ d.instance? i = some inst ∧
      inst.box.isSome ∧ (d.contentBox? inst.template).isSome}

/-- `e` is `d` but for boxes that a pass from `root` sets, and every instance starts where it did. -/
structure RefittedFrom (d : Design α) (root : CellId) (e : Design α) : Prop where
  agree : AgreeOutside (d.refitted root) d e
  corner : ∀ i, e.storedCorner? (.inst i) = d.storedCorner? (.inst i)

namespace RefittedFrom

theorem refl (d : Design α) (root : CellId) : d.RefittedFrom root d := ⟨.refl _ d, fun _ => rfl⟩

/-- An object has a box after fitting if it had one before. -/
theorem isSome_box (h : d.RefittedFrom root e) (hn : n ∈ d.children c) : (e.box? n).isSome = (d.box? n).isSome := by
  cases n with
  | cell k => exact absurd rfl (cell_ne_of_mem_children hn k)
  | polygon p =>
    have hp : Node.polygon p ∉ d.refitted root := by
      rintro (⟨k, -, hk, -⟩ | ⟨k, i, inst, -, -, hi, -⟩)
      · cases hk
      · cases hi
    rw [h.agree.box hp]
  | inst i =>
    have hcorner := congrArg Option.isSome (h.corner i)
    rwa [isSome_storedCorner, isSome_storedCorner] at hcorner

theorem exists_bound_child (h : d.RefittedFrom root e) :
    (∃ m ∈ e.children c, (e.box? m).isSome) ↔ ∃ m ∈ d.children c, (d.box? m).isSome := by
  rw [← h.agree.children]
  exact exists_congr fun m => and_congr_right fun hm => by rw [h.isSome_box hm]

/-- A cell has content after fitting if it had some before. -/
theorem isSome_content (h : d.RefittedFrom root e) (t : CellId) :
    (e.contentBox? t).isSome = (d.contentBox? t).isSome := by
  rw [Bool.eq_iff_iff, isSome_contentBox_iff, isSome_contentBox_iff, h.exists_bound_child]
  refine or_congr_right' fun hnone => ?_
  rw [h.agree.box]
  rintro (⟨k, -, hk, hchild⟩ | ⟨k, i, inst, -, -, hi, -⟩)
  · cases hk
    exact hnone hchild
  · cases hi

theorem refitInstance (h : d.RefittedFrom root e) (hc : d.Active root c) (hi : .inst i ∈ d.children c) :
    d.RefittedFrom root (e.refitInstance i) := by
  refine ⟨h.agree.trans ?_, fun j => (storedCorner_refitInstance e i j).trans (h.corner j)⟩
  rcases refitInstance_cases e i with ⟨inst, placed, content, hinst, hplaced, hcontent, heq⟩ | ⟨-, heq⟩
  · rw [heq]
    refine agreeOutside_writeBox (.inr ?_) e _
    have hbox := h.isSome_box hi
    have htemplate := h.agree.template i
    have hdrawn := h.isSome_content inst.template
    rw [hinst] at htemplate
    obtain ⟨inst', hinst', htemplate⟩ := Option.map_eq_some_iff.mp htemplate
    refine ⟨c, i, inst', hc, hi, rfl, hinst', ?_, ?_⟩
    · simpa [box?, hinst, hinst', hplaced] using hbox.symm
    · rw [htemplate, ← hdrawn, hcontent]
      rfl
  · rw [heq]
    exact .refl _ e

theorem refitBox (h : d.RefittedFrom root e) (hc : d.Active root c) : d.RefittedFrom root (e.refitBox c) := by
  unfold Design.refitBox
  split
  · rename_i box hbox
    have hne : e.childBoxes c ≠ [] := Box.isSome_tight_iff.mp (by rw [hbox]; rfl)
    have hmem : .cell c ∈ d.refitted root :=
      .inl ⟨c, hc, rfl, h.exists_bound_child.mp (childBoxes_ne_nil_iff.mp hne)⟩
    refine ⟨h.agree.trans (agreeOutside_writeBox hmem e _), fun j => ?_⟩
    rw [storedCorner_writeBox_cell, h.corner]
  · exact h

theorem refit (h : d.RefittedFrom root e) (hc : d.Active root c) : d.RefittedFrom root (e.refit c) := by
  unfold Design.refit
  split
  · exact h
  · rename_i cell hcell
    refine RefittedFrom.refitBox ?_ hc
    refine List.foldlRecOn (motive := d.RefittedFrom root) cell.instances _ h fun f hf i hi => hf.refitInstance hc ?_
    rw [h.agree.children]
    exact inst_mem_children_iff.mpr ⟨cell, hcell, hi⟩

end RefittedFrom

theorem refittedFrom_propagate (d : Design α) (root : CellId) : d.RefittedFrom root (d.propagate root) :=
  List.foldlRecOn (motive := d.RefittedFrom root) _ _ (.refl d root) fun _ he _ hc =>
    he.refit (active_of_mem_activePostorder hc)

/-! ## The fixpoint -/

/-- `e` is `d` with the boxes below `root` fitted: a placed instance in an active cell has the size of what its template
now contains and starts where it did, an active cell has the box around its objects if there is one, and nothing else
has changed. -/
structure FittedBelow (d : Design α) (root : CellId) (e : Design α) : Prop where
  instances : ∀ c i inst placed content, d.Active root c → .inst i ∈ d.children c → d.instance? i = some inst →
    inst.box = some placed → e.contentBox? inst.template = some content →
      e.box? (.inst i) = some (content.movedTo placed.x1 placed.y1)
  cells : ∀ c, d.Active root c → (∃ m ∈ d.children c, (d.box? m).isSome) →
    ∃ b, Box.tight? (e.childBoxes c) = some b ∧ e.box? (.cell c) = some b
  content : ∀ t, (e.contentBox? t).isSome = (d.contentBox? t).isSome
  others : AgreeOutside (d.refitted root) d e

/-- One pass fits all boxes below a root, and another one changes nothing. -/
theorem fittedBelow_propagate (h : d.WellFormed) (root : CellId) :
    d.FittedBelow root (d.propagate root) ∧ (d.propagate root).propagate root = d.propagate root := by
  have hpass := refittedFrom_propagate d root
  have hagree := hpass.agree
  refine ⟨⟨?_, ?_, hpass.isSome_content, hagree⟩, ?_⟩
  · intro c i inst placed content hc hi hinst hplaced hcontent
    obtain ⟨hnone, -⟩ | ⟨inst', b, hinst', hfinal⟩ := hagree.instance_cases i
    · rw [hinst] at hnone
      cases hnone
    obtain rfl := Option.some.inj (hinst.symm.trans hinst')
    have hcorner := hpass.corner i
    simp only [storedCorner?, stored?, hinst, hfinal, hplaced, Option.bind_some, Option.map_some] at hcorner
    obtain ⟨own, rfl, hstart⟩ := Option.map_eq_some_iff.mp hcorner
    have hfits := (fitsContent_propagate h hc).instances i (hagree.children c ▸ hi) _ own content hfinal rfl hcontent
    obtain ⟨hx, hy⟩ := Prod.mk.inj hstart
    rw [hx, hy] at hfits
    simp only [box?, hfinal, Option.bind_some]
    exact congrArg some hfits
  · intro c hc hbound
    have hne := childBoxes_ne_nil_iff.mpr (hpass.exists_bound_child.mpr hbound)
    obtain ⟨b, hb⟩ := Box.exists_tight hne
    have hactive : (d.propagate root).isActive c := by
      rw [← hagree.isActive]
      exact hc.isActive
    exact ⟨b, hb, ((fitsContent_propagate h hc).tight_eq hactive hne).symm.trans hb⟩
  · refine List.foldlRecOn (motive := fun e => e = d.propagate root) _ _ rfl fun e he c hc => ?_
    rw [he]
    rw [← hagree.activePostorder] at hc
    exact refit_of_fits (fitsContent_propagate h (active_of_mem_activePostorder hc))

/-- A cell with two instances of one template, one of them without a box, beside a frozen template and an empty one; a
top cell draws it. -/
def mixedBlock : List (Operation Rat) :=
  [.addCell "unit", .addPolygon ⟨0⟩ "strap" "met1", .setBox (.polygon ⟨0⟩) ⟨2, 3, 12, 8⟩, .addPolygon ⟨0⟩ "pad" "met2",
    .addCell "seal", .addPolygon ⟨1⟩ "cut" "via1", .setBox (.polygon ⟨2⟩) ⟨0, 0, 4, 4⟩, .freeze ⟨1⟩, .addCell "blank",
    .addCell "block", .addInstance ⟨3⟩ "u" ⟨0⟩, .setBox (.inst ⟨0⟩) ⟨0, 0, 1, 1⟩,
    .addInstance ⟨3⟩ "s" ⟨1⟩, .setBox (.inst ⟨1⟩) ⟨20, 0, 21, 1⟩,
    .addInstance ⟨3⟩ "b" ⟨2⟩, .setBox (.inst ⟨2⟩) ⟨40, 0, 41, 1⟩, .addInstance ⟨3⟩ "v" ⟨0⟩,
    .addCell "top", .addInstance ⟨4⟩ "k" ⟨3⟩, .setBox (.inst ⟨4⟩) ⟨100, 50, 101, 51⟩]

theorem fittedBelow_propagate_mixedBlock :
    (empty.run mixedBlock).FittedBelow ⟨4⟩ ((empty.run mixedBlock).propagate ⟨4⟩) ∧
    ((empty.run mixedBlock).propagate ⟨4⟩).propagate ⟨4⟩ = (empty.run mixedBlock).propagate ⟨4⟩ ∧
    ((empty.run mixedBlock).propagate ⟨4⟩).box? (.inst ⟨4⟩) = some ⟨100, 50, 141, 55⟩ ∧
    ((empty.run mixedBlock).propagate ⟨4⟩).box? (.inst ⟨2⟩) = some ⟨40, 0, 41, 1⟩ ∧
    ((empty.run mixedBlock).propagate ⟨4⟩).box? (.inst ⟨3⟩) = none := by
  have hd : (empty.run mixedBlock).WellFormed := Reachable.wellFormed ⟨mixedBlock, rfl⟩
  obtain ⟨hfitted, hagain⟩ := fittedBelow_propagate hd ⟨4⟩
  have htop : (empty.run mixedBlock).Active ⟨4⟩ ⟨4⟩ := active_self (by decide +kernel)
  have hbox := hfitted.instances ⟨4⟩ ⟨4⟩ ⟨"k", ⟨3⟩, some ⟨100, 50, 101, 51⟩, ⟨4⟩⟩ _ ⟨0, 0, 41, 5⟩ htop (by decide +kernel)
    (by decide +kernel) rfl (by decide +kernel)
  exact ⟨hfitted, hagain, by rw [hbox]; decide +kernel, by decide +kernel, by decide +kernel⟩

end RectLayout.Design
