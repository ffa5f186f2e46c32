import RectLayout.Proofs.Design.Active

/-!
# What fitting boxes changes

Fitting changes the stored boxes of active cells and of instances in them, and nothing else (`agreeOutside_propagate`);
of an instance it keeps the lower left corner (`storedCorner_propagate`), and a cell without objects keeps its box.
-/

namespace RectLayout.Design

variable {α : Type} {d e : Design α} {root c : CellId}

/-- A chain of changes, each of which changes nothing outside `S`. -/
theorem agreeOutside_foldl {β : Type} {S : Set Node} {step : Design α → β → Design α} {l : List β}
    (h : ∀ x ∈ l, ∀ e, AgreeOutside S d e → AgreeOutside S e (step e x)) : AgreeOutside S d (l.foldl step d) := by
  induction l generalizing d with
  | nil => exact .refl S d
  | cons x l ih =>
    have hx := h x List.mem_cons_self d (.refl S d)
    exact hx.trans (ih fun y hy e he => h y (List.mem_cons_of_mem x hy) e (hx.trans he))

/-- The active cells that are not empty, and the instances in active cells: the nodes whose boxes are fitted. -/
def fitted (d : Design α) (root : CellId) : Set Node :=
  {n | (∃ c, d.Active root c ∧ n = .cell c ∧ d.children c ≠ []) ∨
    ∃ i c, d.Active root c ∧ n = .inst i ∧ n ∈ d.children c}

theorem fitted_subset_solved (d : Design α) (root : CellId) : d.fitted root ⊆ d.solved root := by
  rintro n (⟨c, hc, rfl, -⟩ | ⟨i, c, hc, rfl, hn⟩)
  · exact cell_mem_solved_iff.mpr hc
  · exact hc.child_mem_solved hn

theorem AgreeOutside.fitted {S : Set Node} (h : AgreeOutside S d e) (root : CellId) :
    d.fitted root = e.fitted root := by
  ext n
  show (_ ∨ _) ↔ (_ ∨ _)
  simp only [h.active, h.children]

/-- The lower left corner of the stored box of a node. -/
def storedCorner? (d : Design α) (n : Node) : Option (α × α) := (d.stored? n).map fun b => (b.x1, b.y1)

theorem storedCorner_writeBox_cell (d : Design α) (c : CellId) (b : Option (Box α)) (i : InstanceId) :
    (d.writeBox (.cell c) b).storedCorner? (.inst i) = d.storedCorner? (.inst i) := by
  simp [storedCorner?, stored?_writeBox]

variable [Scalar α]

theorem agreeOutside_refitInstance {S : Set Node} {i : InstanceId} (hi : .inst i ∈ S) (d : Design α) :
    AgreeOutside S d (d.refitInstance i) := by
  unfold refitInstance
  split
  · exact .refl S d
  · split
    · exact agreeOutside_writeBox hi d _
    · exact .refl S d

theorem agreeOutside_refitBox {S : Set Node} (hc : d.children c ≠ [] → .cell c ∈ S) :
    AgreeOutside S d (d.refitBox c) := by
  unfold refitBox
  split
  · rename_i box hbox
    refine agreeOutside_writeBox (hc fun h => ?_) d _
    simp [childBoxes, h, Box.tight?] at hbox
  · exact .refl S d

theorem agreeOutside_refit {S : Set Node} (hc : d.children c ≠ [] → .cell c ∈ S)
    (hi : ∀ i, .inst i ∈ d.children c → .inst i ∈ S) : AgreeOutside S d (d.refit c) := by
  unfold refit
  split
  · exact .refl S d
  · rename_i cell hcell
    have hfold : AgreeOutside S d (cell.instances.foldl refitInstance d) := by
      refine agreeOutside_foldl fun i him e _ => agreeOutside_refitInstance (hi i ?_) e
      exact inst_mem_children_iff.mpr ⟨cell, hcell, him⟩
    exact hfold.trans (agreeOutside_refitBox fun h => hc (by rwa [hfold.children]))

/-- Fitting changes no boxes but those of active cells and of instances in them. -/
theorem agreeOutside_propagate (d : Design α) (root : CellId) :
    AgreeOutside (d.fitted root) d (d.propagate root) := by
  refine agreeOutside_foldl fun c hc e he => agreeOutside_refit (fun h => ?_) fun i hi => ?_
  · exact .inl ⟨c, active_of_mem_activePostorder hc, rfl, by rwa [he.children]⟩
  · exact .inr ⟨i, c, active_of_mem_activePostorder hc, rfl, by rwa [he.children]⟩

/-! ## Lower left corners of instances -/

theorem storedCorner_refitInstance (d : Design α) (i j : InstanceId) :
    (d.refitInstance i).storedCorner? (.inst j) = d.storedCorner? (.inst j) := by
  unfold refitInstance
  split
  · rfl
  · rename_i inst hinst
    split
    · rename_i placed content hplaced hcontent
      simp only [storedCorner?, stored?_writeBox]
      split
      · rename_i h
        obtain ⟨h, -⟩ := h
        cases h
        simp [stored?, hinst, hplaced, Box.movedTo]
      · rfl
    · rfl

theorem storedCorner_refit (d : Design α) (c : CellId) (i : InstanceId) :
    (d.refit c).storedCorner? (.inst i) = d.storedCorner? (.inst i) := by
  have hfold : ∀ (l : List InstanceId) (e : Design α),
      (l.foldl refitInstance e).storedCorner? (.inst i) = e.storedCorner? (.inst i) := by
    intro l
    induction l with
    | nil => intro e; rfl
    | cons j l ih => intro e; rw [List.foldl_cons, ih, storedCorner_refitInstance]
  unfold refit
  split
  · rfl
  · rename_i cell hcell
    unfold refitBox
    split
    · rw [storedCorner_writeBox_cell, hfold]
    · exact hfold _ _

/-- Fitting moves no instance: its lower left corner stays. -/
theorem storedCorner_propagate (d : Design α) (root : CellId) (i : InstanceId) :
    (d.propagate root).storedCorner? (.inst i) = d.storedCorner? (.inst i) := by
  unfold propagate
  generalize d.activePostorder root = l
  induction l generalizing d with
  | nil => rfl
  | cons c l ih => rw [List.foldl_cons, ih, storedCorner_refit]

end RectLayout.Design
