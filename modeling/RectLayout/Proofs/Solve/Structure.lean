import Mathlib.Data.Finset.Order
import RectLayout.Proofs.Problem.Violation
import RectLayout.Proofs.Solve.Substitution
import RectLayout.Proofs.Solve.Unknowns

/-!
# Structure alone is never contradictory

The rows that a design has without its constraints want every box to have the least extents, objects to lie inside
their cells and instances to have the size of their templates. These wants have a common solution however deep the
templates are nested and however often they are drawn: put every box at the origin, make the polygons small squares and
give the instances of frozen templates the frozen size; then one large square does for all cells and all other instances
(`Design.stacked`). All that is asked of the design is that the frozen templates are not too small themselves
(`StackingSizes.rowHolds_structural`). Each of these rows has unknowns, as the boxes that it compares do not share any, so
none of them is decided when it is compiled (`StructuralShape.not_isConstant`). If rows contradict each other, a
constraint has a part in it (`structure_is_feasible`).
-/

namespace RectLayout

variable {d : Design Rat} {a : Allocation} {root : CellId} {config : SolveConfig Rat} {small large : Rat}

/-! ## Boxes on top of each other -/

namespace Design

/-- A box with the lower left corner at the origin for every node: that of a frozen template for its instances, a small
square for polygons and a large one for all else. -/
def stacked (d : Design Rat) (small large : Rat) : Node → Box Rat
  | .polygon _ => ⟨0, 0, small, small⟩
  | .cell _ => ⟨0, 0, large, large⟩
  | .inst i =>
    match (d.instance? i).bind fun inst => d.frozenBox? inst.template with
    | some b => b.movedTo 0 0
    | none => ⟨0, 0, large, large⟩

/-- The small square and the frozen templates that are drawn have the least extents, and the large square is as large as
the small one and as every frozen cell. -/
structure StackingSizes (d : Design Rat) (root : CellId) (config : SolveConfig Rat) (small large : Rat) : Prop where
  epsilon_le : config.epsilon ≤ small
  minSize_le : config.defaultMinSize ≤ small
  small_le : small ≤ large
  epsilon_le_frozen : ∀ c t b, d.Active root c → t ∈ d.templates c → d.frozenBox? t = some b →
    config.epsilon ≤ b.width ∧ config.epsilon ≤ b.height
  frozen_le : ∀ t b, d.frozenBox? t = some b → b.width ≤ large ∧ b.height ≤ large

theorem mem_cellIds_of_cell {c : CellId} {cell : Cell Rat} (h : d.cell? c = some cell) : c ∈ d.cellIds :=
  List.mem_toFinset.mp (mem_cellSet_iff.mpr (by rw [h]; rfl))

theorem mem_cellIds_of_frozenBox {t : CellId} {b : Box Rat} (h : d.frozenBox? t = some b) : t ∈ d.cellIds := by
  obtain ⟨cell, hcell, -⟩ := Option.bind_eq_some_iff.mp h
  exact mem_cellIds_of_cell hcell

/-- A design has finitely many cells, so some square is large enough. -/
theorem exists_stackingSizes (hfrozen : ∀ c t b, d.Active root c → t ∈ d.templates c → d.frozenBox? t = some b →
    config.epsilon ≤ b.width ∧ config.epsilon ≤ b.height) : ∃ small large, d.StackingSizes root config small large := by
  -- the sizes of all frozen cells, drawn from the root or not, are a finite list
  let extents := (d.cellIds.filterMap d.frozenBox?).flatMap fun b => [b.width, b.height]
  obtain ⟨large, hlarge⟩ := Finset.exists_le (max config.epsilon config.defaultMinSize :: extents).toFinset
  simp only [List.mem_toFinset, List.forall_mem_cons] at hlarge
  refine ⟨_, large, le_max_left _ _, le_max_right _ _, hlarge.1, hfrozen, fun t b hb => ?_⟩
  have hextents : ∀ v ∈ [b.width, b.height], v ≤ large := fun v hv =>
    hlarge.2 v (List.mem_flatMap.mpr ⟨b, List.mem_filterMap.mpr ⟨t, mem_cellIds_of_frozenBox hb, hb⟩, hv⟩)
  simpa using hextents

/-- Every stacked box has the least extents and lies in the large square. -/
theorem StackingSizes.stacked_eq (h : d.StackingSizes root config small large) {n : Node} (hn : n ∈ d.solved root) :
    ∃ w k, d.stacked small large n = ⟨0, 0, w, k⟩ ∧ (config.epsilon ≤ w ∧ config.epsilon ≤ k) ∧ w ≤ large ∧ k ≤ large := by
  have hsmall := h.epsilon_le
  have hlarge := hsmall.trans h.small_le
  cases n with
  | cell c => exact ⟨large, large, rfl, ⟨hlarge, hlarge⟩, le_rfl, le_rfl⟩
  | polygon p => exact ⟨small, small, rfl, ⟨hsmall, hsmall⟩, h.small_le, h.small_le⟩
  | inst i =>
    cases hb : (d.instance? i).bind fun inst => d.frozenBox? inst.template with
    | none => exact ⟨large, large, by simp only [stacked, hb], ⟨hlarge, hlarge⟩, le_rfl, le_rfl⟩
    | some b =>
      obtain ⟨inst, hinst, hfrozen⟩ := Option.bind_eq_some_iff.mp hb
      obtain ⟨c, hc, ht⟩ := exists_active_of_solved hn hinst
      refine ⟨b.width, b.height, ?_, h.epsilon_le_frozen c _ b hc ht hfrozen, h.frozen_le _ b hfrozen⟩
      simp only [stacked, hb, Box.movedTo, zero_add]

/-! ## A point that satisfies all structural rows -/

namespace StackingSizes

variable (h : d.StackingSizes root config small large) (hd : d.WellFormed) (ha : Allocation.ofRoot d root = .ok a)

include h ha

theorem read_stacked {n : Node} (hn : n ∈ d.solved root) : ∃ w k,
    a.read d (a.point (d.stacked small large)) n = some ⟨0, 0, w, k⟩ ∧
      (config.epsilon ≤ w ∧ config.epsilon ≤ k) ∧ w ≤ large ∧ k ≤ large := by
  obtain ⟨w, k, hb, hsizes⟩ := h.stacked_eq hn
  exact ⟨w, k, by rw [Allocation.read_point d _ ((Allocation.mem_nodes_iff ha).mpr hn), hb], hsizes⟩

include hd

theorem rowHolds_validity :
    ∀ r ∈ Compiled.validity d a config, RowHolds 0 (a.point (d.stacked small large)) r := by
  refine (Compiled.validity_iff hd ha).mpr fun n hn => ?_
  obtain ⟨w, k, hb, ⟨hw, hk⟩, -⟩ := h.read_stacked ha hn
  exact ⟨_, hb, by simpa [Box.width] using hw, by simpa [Box.height] using hk⟩

theorem rowHolds_defaultSizes :
    ∀ r ∈ Compiled.defaultSizes d a config (Compiled.mentioned d a), RowHolds 0 (a.point (d.stacked small large)) r := by
  refine (Compiled.defaultSizes_iff hd ha).mpr fun p hp _ => ?_
  refine ⟨_, Allocation.read_point d _ ((Allocation.mem_nodes_iff ha).mpr hp), ?_⟩
  simpa [stacked, Box.width, Box.height] using h.minSize_le

omit hd in
theorem rowHolds_containment {c : CellId} (hc : d.Active root c) :
    ∀ r ∈ Compiled.containment d a c, RowHolds 0 (a.point (d.stacked small large)) r := by
  refine (Compiled.containment_iff ha hc).mpr fun n hn => ?_
  obtain ⟨w, k, hb, -, hw, hk⟩ := h.read_stacked ha (hc.child_mem_solved hn)
  have hcell := (Allocation.mem_nodes_iff ha).mpr (cell_mem_solved_iff.mpr hc)
  exact ⟨_, _, Allocation.read_point d _ hcell, hb, by simp [stacked], by simp [stacked], by simpa [stacked] using hw,
    by simpa [stacked] using hk⟩

omit h in
/-- An instance has the size of its template, which is frozen and has its own box, or is the large square. -/
theorem rowHolds_instanceSizes :
    ∀ r ∈ Compiled.instanceSizes d a, RowHolds 0 (a.point (d.stacked small large)) r := by
  refine (Compiled.instanceSizes_iff hd ha).mpr fun i inst hi hinst => ?_
  obtain ⟨c, hc, ht⟩ := exists_active_of_solved hi hinst
  have hown := Allocation.read_point d (d.stacked small large) ((Allocation.mem_nodes_iff ha).mpr hi)
  cases hfrozen : d.frozenBox? inst.template with
  | none =>
    have hactive : d.isActive inst.template :=
      (hd.isActive_or_frozenBox ht).resolve_right fun ⟨b, hb⟩ => by rw [hfrozen] at hb; cases hb
    have htemplate := (Allocation.mem_nodes_iff ha).mpr (cell_mem_solved_iff.mpr (hc.template ht hactive))
    exact ⟨_, _, hown, Allocation.read_point d _ htemplate, by simp [stacked, hinst, hfrozen],
      by simp [stacked, hinst, hfrozen]⟩
  | some b =>
    -- a frozen template is not solved for, so its box is read from the design
    have hnot : Node.cell inst.template ∉ a.nodes := fun hmem =>
      not_isActive_of_frozenBox hfrozen (cell_mem_solved_iff.mp ((Allocation.mem_nodes_iff ha).mp hmem)).isActive
    have hbox := box?_of_frozenBox hfrozen
    rw [← Allocation.read_of_not_mem hnot (a.point (d.stacked small large))] at hbox
    exact ⟨_, _, hown, hbox, by simp [stacked, hinst, hfrozen, Box.movedTo, Box.width],
      by simp [stacked, hinst, hfrozen, Box.movedTo, Box.height]⟩

/-- Every row that does not come from a constraint holds of stacked boxes. -/
theorem rowHolds_structural :
    ∀ r ∈ Compiled.structural d a config, RowHolds 0 (a.point (d.stacked small large)) r :=
  Compiled.forall_structural (h.rowHolds_validity hd ha) (h.rowHolds_defaultSizes hd ha)
    (fun _ hc => h.rowHolds_containment ha ((Allocation.mem_cells_iff ha).mp hc)) (rowHolds_instanceSizes hd ha)

end StackingSizes

end Design

/-! ## Contradictions -/

theorem Compiled.activeConstraints_eq_nil (ha : Allocation.ofRoot d root = .ok a)
    (hnone : ∀ c cell, d.Active root c → d.cell? c = some cell → cell.constraints = []) :
    activeConstraints d a = [] := by
  refine List.eq_nil_iff_forall_not_mem.mpr ?_
  rintro ⟨name, k⟩ hk
  obtain ⟨c, cell, hc, hcell, hkc, -⟩ := (mem_activeConstraints_iff ha).mp hk
  rw [hnone c cell hc hcell] at hkc
  cases hkc

/-- What has no constraints compiles. -/
theorem exists_compile_of_no_constraints (hnone : Compiled.activeConstraints d a = []) :
    ∃ cs, compile d a config = .ok cs := by
  rw [compile, Compiled.rows, hnone]
  exact ⟨_, rfl⟩

/-- The labels of rows that are found not to hold come from constraints, and the rows that come from none have a common
solution. -/
theorem contradictions_from_constraints (hd : d.WellFormed) (ha : Allocation.ofRoot d root = .ok a)
    (hfrozen : ∀ c t b, d.Active root c → t ∈ d.templates c → d.frozenBox? t = some b →
      config.epsilon ≤ b.width ∧ config.epsilon ≤ b.height) {cs : Compiled Rat} (hcs : compile d a config = .ok cs) :
    (∀ label ∈ cs.infeasible, ∃ r, Compiled.IsClauseRow d a r ∧ r.2.isConstant ∧ r.2.label = label) ∧
      ∃ x, x.size = cs.problem.numVars ∧ ∀ r ∈ cs.problem.rows, missAt x r ≠ 0 → Compiled.IsClauseRow d a r := by
  obtain ⟨all, hall, rfl⟩ := Compiled.exists_rows_of_compile hcs
  obtain ⟨small, large, hsizes⟩ := Design.exists_stackingSizes hfrozen
  constructor
  · intro label hlabel
    simp only [Compiled.ofRows, List.partition_eq_filter_filter, List.mem_map, List.mem_filter] at hlabel
    obtain ⟨r, ⟨⟨hr, hconstant⟩, -⟩, rfl⟩ := hlabel
    refine ⟨r, ((Compiled.mem_rows_iff hall).mp hr).resolve_left fun hstructural => ?_, hconstant, rfl⟩
    exact (Compiled.structuralShape_of_structural hd ha r hstructural).not_isConstant rfl hconstant
  · refine ⟨a.point (d.stacked small large), Allocation.size_point a _, fun r hr hmissed => ?_⟩
    refine ((Compiled.mem_rows_iff hall).mp (Compiled.mem_rows_ofRows.mp hr).1).resolve_left fun hstructural => ?_
    exact hmissed ((RowKind.violation_eq_zero_iff _ _).mpr (hsizes.rowHolds_structural hd ha r hstructural))

/-- If the frozen templates that are drawn have the least extents, the problem of a design without constraints compiles
and has a solution. With constraints, only rows that come from them can be found not to hold, and all others still have
a common solution. -/
theorem structure_is_feasible (hd : d.WellFormed) (hroot : d.isActive root)
    (hfrozen : ∀ c t b, d.Active root c → t ∈ d.templates c → d.frozenBox? t = some b →
      config.epsilon ≤ b.width ∧ config.epsilon ≤ b.height) :
    ∃ a, Allocation.ofRoot d root = .ok a ∧
      ((∀ c cell, d.Active root c → d.cell? c = some cell → cell.constraints = []) →
        ∃ cs, compile d a config = .ok cs ∧ cs.infeasible = [] ∧
          ∃ x, x.size = cs.problem.numVars ∧ ∀ r ∈ cs.problem.rows, missAt x r = 0) ∧
      ∀ cs, compile d a config = .ok cs →
        (∀ label ∈ cs.infeasible, ∃ r, Compiled.IsClauseRow d a r ∧ r.2.isConstant ∧ r.2.label = label) ∧
          ∃ x, x.size = cs.problem.numVars ∧ ∀ r ∈ cs.problem.rows, missAt x r ≠ 0 → Compiled.IsClauseRow d a r := by
  obtain ⟨a, ha⟩ : ∃ a, Allocation.ofRoot d root = .ok a := ⟨_, Allocation.ofRoot_eq hroot⟩
  refine ⟨a, ha, fun hnone => ?_, fun cs => contradictions_from_constraints hd ha hfrozen⟩
  have hempty := Compiled.activeConstraints_eq_nil ha hnone
  have hno : ∀ r, ¬ Compiled.IsClauseRow d a r := by
    rintro r ⟨q, hq, -⟩
    rw [hempty] at hq
    cases hq
  obtain ⟨cs, hcs⟩ := exists_compile_of_no_constraints hempty
  obtain ⟨hlabels, x, hx, hrows⟩ := contradictions_from_constraints hd ha hfrozen hcs
  refine ⟨cs, hcs, List.eq_nil_iff_forall_not_mem.mpr fun label hlabel => ?_, x, hx, fun r hr => ?_⟩
  · obtain ⟨r, hr, -⟩ := hlabels label hlabel
    exact hno r hr
  · by_contra hmissed
    exact hno r (hrows r hr hmissed)

/-- The block draws one cell twice, a frozen one and an empty one, and nothing is constrained. -/
theorem structure_is_feasible_mixedBlock : ∃ a cs,
    Allocation.ofRoot (Design.empty.run Design.mixedBlock) ⟨4⟩ = .ok a ∧
    (Design.empty.run Design.mixedBlock).frozenBox? ⟨1⟩ = some ⟨0, 0, 4, 4⟩ ∧
    compile (Design.empty.run Design.mixedBlock) a .standard = .ok cs ∧ cs.infeasible = [] ∧
    ∃ x, x.size = cs.problem.numVars ∧ ∀ r ∈ cs.problem.rows, missAt x r = 0 := by
  have hd : (Design.empty.run Design.mixedBlock).WellFormed := Design.Reachable.wellFormed ⟨Design.mixedBlock, rfl⟩
  have hfrozen : ∀ t ∈ (Design.empty.run Design.mixedBlock).cellIds,
      ∀ b ∈ (Design.empty.run Design.mixedBlock).frozenBox? t,
        (SolveConfig.standard : SolveConfig Rat).epsilon ≤ b.width ∧
          (SolveConfig.standard : SolveConfig Rat).epsilon ≤ b.height := by decide +kernel
  have hnone : ∀ c ∈ (Design.empty.run Design.mixedBlock).cellIds,
      ∀ cell ∈ (Design.empty.run Design.mixedBlock).cell? c, cell.constraints = [] := by decide +kernel
  obtain ⟨a, ha, hsolvable, -⟩ := structure_is_feasible hd
    (show (Design.empty.run Design.mixedBlock).isActive ⟨4⟩ by decide +kernel)
    fun c t b _ _ hb => hfrozen t (Design.mem_cellIds_of_frozenBox hb) b hb
  obtain ⟨cs, hcs, hinfeasible, hx⟩ := hsolvable fun c cell _ hcell =>
    hnone c (Design.mem_cellIds_of_cell hcell) cell hcell
  exact ⟨a, cs, ha, by decide +kernel, hcs, hinfeasible, hx⟩

end RectLayout
