import Mathlib.Data.Finset.Dedup
import RectLayout.Design.Propagate
import RectLayout.Proofs.Design.Boxes
import RectLayout.Proofs.Walk
import RectLayout.Solve.Allocation

/-!
# Active cells

The cells that a solve from a root is about are those that the root reaches through cells that are not frozen, itself
included (`Design.Active`). The walk `activeCells` lists exactly these, each once (`mem_activeCells_iff`,
`nodup_activeCells`), and `activePostorder` lists no others (`active_of_mem_activePostorder`); `reachable` lists the
cells that a cell reaches through any cells (`mem_reachable_iff`). The nodes with unknown boxes are the active cells and
their children (`Design.solved`). None of this depends on boxes.
-/

namespace RectLayout.Design

open Walk

variable {α : Type} {d e : Design α} {root c : CellId}

/-! ## Fuel -/

/-- The handles of a design as a set, which bounds every chain of templates. -/
def cellSet (d : Design α) : Finset CellId := d.cellIds.toFinset

theorem card_cellSet_le (d : Design α) : d.cellSet.card ≤ d.cells.size := by
  refine (List.toFinset_card_le _).trans ?_
  simp [cellIds]

theorem mem_cellSet_iff : c ∈ d.cellSet ↔ (d.cell? c).isSome := by
  obtain ⟨k⟩ := c
  simp [cellSet, cellIds, cell?]

theorem mem_cellSet_of_templates (h : d.templates c ≠ []) : c ∈ d.cellSet := by
  rw [mem_cellSet_iff]
  cases hc : d.cell? c with
  | none => simp [templates, hc] at h
  | some cell => rfl

theorem mem_cellSet_of_activeTemplates (h : d.activeTemplates c ≠ []) : c ∈ d.cellSet :=
  mem_cellSet_of_templates fun ht => h (by rw [activeTemplates, ht, List.filter_nil])

/-! ## What the walks list -/

/-- `reachable` lists what a cell reaches through the templates of its instances. -/
theorem mem_reachable_iff : c ∈ d.reachable root ↔ Reaches d.templates root c :=
  mem_preorder_iff (fun _ => mem_cellSet_of_templates) d.card_cellSet_le

/-- `c` is reached from `root` through cells that are not frozen, and neither is one of the two. -/
def Active (d : Design α) (root c : CellId) : Prop := d.isActive root ∧ Reaches d.activeTemplates root c

theorem mem_activeTemplates_iff {t : CellId} : t ∈ d.activeTemplates c ↔ t ∈ d.templates c ∧ d.isActive t := by
  simp [activeTemplates]

theorem Active.isActive (h : d.Active root c) : d.isActive c := by
  obtain ⟨hroot, hr⟩ := h
  induction hr with
  | refl => exact hroot
  | tail _ he _ => exact (mem_activeTemplates_iff.mp he).2

theorem active_self (h : d.isActive root) : d.Active root root := ⟨h, .refl⟩

/-- An unfrozen template of an active cell is active. -/
theorem Active.template (h : d.Active root c) {t : CellId} (ht : t ∈ d.templates c) (ha : d.isActive t) :
    d.Active root t := ⟨h.1, h.2.tail (mem_activeTemplates_iff.mpr ⟨ht, ha⟩)⟩

theorem isActive_iff : d.isActive c ↔ ∃ cell, d.cell? c = some cell ∧ cell.frozen = none := by
  cases h : d.cell? c <;> simp [isActive, h, Cell.isFrozen]

theorem Active.cell (h : d.Active root c) : ∃ cell, d.cell? c = some cell ∧ cell.frozen = none :=
  isActive_iff.mp h.isActive

/-- `activeCells` lists the active cells. -/
theorem mem_activeCells_iff : c ∈ d.activeCells root ↔ d.Active root c := by
  unfold activeCells Active
  split
  · rename_i h
    rw [mem_preorder_iff (fun _ => mem_cellSet_of_activeTemplates) d.card_cellSet_le]
    simp [h]
  · rename_i h
    simp [h]

theorem nodup_activeCells (d : Design α) (root : CellId) : (d.activeCells root).Nodup := by
  unfold activeCells
  split
  · exact nodup_preorder _ List.nodup_nil root
  · exact List.nodup_nil

theorem active_of_mem_activePostorder (h : c ∈ d.activePostorder root) : d.Active root c := by
  unfold activePostorder at h
  split at h
  · rename_i hroot
    rcases postorder_sound h with h | h
    · cases h
    · exact ⟨hroot, h⟩
  · cases h

/-! ## The nodes of a solve -/

/-- The active cells and their children: the nodes whose boxes a solve from `root` looks for. -/
def solved (d : Design α) (root : CellId) : Set Node := {n | ∃ c, d.Active root c ∧ (n = .cell c ∨ n ∈ d.children c)}

theorem cell_ne_of_mem_children {n : Node} (h : n ∈ d.children c) (k : CellId) : n ≠ .cell k := by
  rintro rfl
  unfold children at h
  split at h <;> simp at h

theorem cell_mem_solved_iff : .cell c ∈ d.solved root ↔ d.Active root c := by
  constructor
  · rintro ⟨k, hk, h | h⟩
    · rw [Node.cell.inj h]; exact hk
    · exact absurd rfl (cell_ne_of_mem_children h c)
  · exact fun h => ⟨c, h, .inl rfl⟩

theorem Active.child_mem_solved (h : d.Active root c) {n : Node} (hn : n ∈ d.children c) : n ∈ d.solved root :=
  ⟨c, h, .inr hn⟩

theorem inst_mem_children_iff {i : InstanceId} :
    .inst i ∈ d.children c ↔ ∃ cell, d.cell? c = some cell ∧ i ∈ cell.instances := by
  cases h : d.cell? c <;> simp [children, h]

theorem mem_templates_iff {t : CellId} : t ∈ d.templates c ↔
    ∃ i inst, .inst i ∈ d.children c ∧ d.instance? i = some inst ∧ inst.template = t := by
  cases h : d.cell? c with
  | none => simp [templates, children, h]
  | some cell => simp [templates, children, h, List.mem_filterMap]

/-- An instance that is solved for is drawn by an active cell. -/
theorem exists_active_of_solved {i : InstanceId} {inst : Instance α} (hi : .inst i ∈ d.solved root)
    (hinst : d.instance? i = some inst) : ∃ c, d.Active root c ∧ inst.template ∈ d.templates c := by
  obtain ⟨c, hc, hi | hi⟩ := hi
  · cases hi
  · exact ⟨c, hc, mem_templates_iff.mpr ⟨i, inst, hi, hinst, rfl⟩⟩

namespace AgreeOutside

variable {S : Set Node}

theorem active (h : AgreeOutside S d e) : d.Active root c ↔ e.Active root c := by
  simp only [Active, h.isActive, h.activeTemplates]

theorem solved (h : AgreeOutside S d e) (root : CellId) : d.solved root = e.solved root := by
  ext n
  show (∃ c, d.Active root c ∧ _) ↔ ∃ c, e.Active root c ∧ _
  simp only [h.active, h.children]

theorem activeCells (h : AgreeOutside S d e) (root : CellId) : d.activeCells root = e.activeCells root := by
  simp only [Design.activeCells, h.isActive, h.activeTemplates, h.cells_size]

theorem activePostorder (h : AgreeOutside S d e) (root : CellId) : d.activePostorder root = e.activePostorder root := by
  simp only [Design.activePostorder, h.isActive, h.activeTemplates, h.cells_size]

end AgreeOutside

end RectLayout.Design
