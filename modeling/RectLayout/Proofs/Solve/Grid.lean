import RectLayout.Proofs.Design.Fitted
import RectLayout.Proofs.Solve.Report

/-!
# Solved boxes are on the grid

A solve without a warning has corrected its point to whole numbers at which every row holds (`SolvedBy.meets`), so the
boxes that it places are on the grid and not empty: an extent that is whole and positive is one at least. The box of a
frozen template is so too, as its extents are whole and less than one apart from those of a placed instance
(`SolvedBy.boxesFrom_snapped`). Boxes of instances and cells are fitted after that, which keeps them on the grid
(`Box.fittingKeeps_snapped`): an instance stays at its corner and takes the size of its template's content, and a cell
takes the box around its objects (`snapped_of_solveWith`).
-/

namespace RectLayout

/-- A box on the grid that leaves another one there by less than one does not leave it. -/
theorem Box.OnGrid.within {a b : Box Rat} {t : Rat} (ha : a.OnGrid) (hb : b.OnGrid) (ht : t < 1)
    (hx1 : b.x1 ≤ a.x1 + t) (hy1 : b.y1 ≤ a.y1 + t) (hx2 : a.x2 ≤ b.x2 + t) (hy2 : a.y2 ≤ b.y2 + t) : a.Within b :=
  ⟨hb.x1.le_of_le_add ha.x1 hx1 ht, hb.y1.le_of_le_add ha.y1 hy1 ht, ha.x2.le_of_le_add hb.x2 hx2 ht,
    ha.y2.le_of_le_add hb.y2 hy2 ht⟩

/-- Boxes on the grid have the same extents if these are less than one apart. -/
theorem Box.OnGrid.extents_eq {a b : Box Rat} {t : Rat} (ha : a.OnGrid) (hb : b.OnGrid) (ht : t < 1)
    (hwidth : |a.width - b.width| ≤ t) (hheight : |a.height - b.height| ≤ t) :
    a.width = b.width ∧ a.height = b.height := by
  constructor
  · exact sub_eq_zero.mp (((ha.x2.sub ha.x1).sub (hb.x2.sub hb.x1)).eq_zero_of_abs_lt (hwidth.trans_lt ht))
  · exact sub_eq_zero.mp (((ha.y2.sub ha.y1).sub (hb.y2.sub hb.y1)).eq_zero_of_abs_lt (hheight.trans_lt ht))

/-- A box on the grid with the extents of a snapped one, up to less than one, is snapped. -/
theorem Box.Snapped.of_extents {a b : Box Rat} {t : Rat} (ha : a.Snapped) (hb : b.OnGrid) (ht : t < 1)
    (hwidth : |a.width - b.width| ≤ t) (hheight : |a.height - b.height| ≤ t) : b.Snapped := by
  obtain ⟨hwidth, hheight⟩ := ha.onGrid.extents_eq hb ht hwidth hheight
  simp only [Box.width, Box.height] at hwidth hheight
  refine ⟨hb, ?_, ?_⟩
  · linarith [ha.wide]
  · linarith [ha.high]

theorem Box.fittingKeeps_snapped : Design.FittingKeeps Box.Snapped where
  union _ _ := Snapped.union
  movedTo _ _ hplaced hcontent := hcontent.movedTo hplaced.onGrid.x1 hplaced.onGrid.y1

/-- The box at a point of whole numbers is snapped if its extents miss the least one by less than all of it. -/
theorem AllWhole.snapped_boxAt {x : Array Rat} (hx : AllWhole x) (base : Nat) {least t : Rat} (ht : t < least)
    (hwidth : least ≤ (boxAt x base).width + t) (hheight : least ≤ (boxAt x base).height + t) :
    (boxAt x base).Snapped := by
  simp only [boxAt, Box.width, Box.height] at hwidth hheight
  have hx12 : valueAt x base < valueAt x (base + 2) := by linarith
  have hy12 : valueAt x (base + 1) < valueAt x (base + 3) := by linarith
  exact ⟨⟨hx _, hx _, hx _, hx _⟩, (hx _).add_one_le (hx _) hx12, (hx _).add_one_le (hx _) hy12⟩

namespace Design

variable {d d' : Design Rat} {root c t : CellId} {config : SolveConfig Rat} {optimizer : ExternalOptimizer Rat}
  {a : Allocation} {p : Problem Rat} {x : Array Rat} {r : SolveReport Rat}

/-! ## Placed boxes -/

/-- A solve without a warning places boxes that are wanted. -/
theorem SolvedBy.meets (hrun : SolvedBy d root config optimizer a p x d' r) (hd : d.WellFormed)
    (ht : 0 ≤ config.correction.tolerance) (hr : r.warning = none) :
    d.Meets root config config.correction.tolerance
      (d.writeBoxes a (correct p x config.correction).values).box? := by
  have hexact : (correct p x config.correction).isExact := by
    rw [hrun.report] at hr
    by_contra hno
    simp [Correction.warning, hno] at hr
  have hread : (d.writeBoxes a (correct p x config.correction).values).box? =
      a.read d (correct p x config.correction).values := funext (box_writeBoxes hd hrun.allocated _)
  rw [hread]
  exact (compiled_iff_meets hd hrun.allocated hrun.compiled ht _).mp ⟨rfl, isExact_correct p x config.correction ▸ hexact⟩

/-- The boxes that a solve places are snapped if it gives no warning and the frozen templates are on the grid. -/
theorem SolvedBy.boxesFrom_snapped (hrun : SolvedBy d root config optimizer a p x d' r) (hd : d.WellFormed)
    (ht : 0 ≤ config.correction.tolerance) (hepsilon : config.correction.tolerance < config.epsilon)
    (hone : config.correction.tolerance < 1)
    (hfrozen : ∀ c t b, d.Active root c → t ∈ d.templates c → d.frozenBox? t = some b → b.OnGrid)
    (hr : r.warning = none) :
    (d.writeBoxes a (correct p x config.correction).values).BoxesFrom Box.Snapped root := by
  have hmeets := hrun.meets hd ht hr
  have hbox := box_writeBoxes hd hrun.allocated (correct p x config.correction).values
  have hagree := agreeOutside_writeBoxes d a (correct p x config.correction).values
  have hsolved : ∀ n ∈ d.solved root, ∃ b,
      (d.writeBoxes a (correct p x config.correction).values).box? n = some b ∧ b.Snapped := by
    intro n hn
    obtain ⟨b, hb, hwidth, hheight⟩ := hmeets.extents n hn
    refine ⟨b, hb, ?_⟩
    obtain ⟨base, hbase⟩ :=
      Option.isSome_iff_exists.mp (Allocation.isSome_base?_iff.mpr ((Allocation.mem_nodes_iff hrun.allocated).mpr hn))
    rw [hbox, Allocation.read, hbase] at hb
    obtain rfl := Option.some.inj hb
    exact (allWhole_correct p x config.correction).snapped_boxAt base hepsilon hwidth hheight
  refine ⟨fun n hn => hsolved n (by rwa [hagree.solved]), fun c t b hc htemplate hb => ?_⟩
  rw [← hagree.active] at hc
  rw [← hagree.templates] at htemplate
  rw [frozenBox?, ← hagree.frozen] at hb
  obtain ⟨i, inst, hi, hinst, rfl⟩ := mem_templates_iff.mp htemplate
  have hisolved := hc.child_mem_solved hi
  obtain ⟨own, drawn, hown, hdrawn, hwidth, hheight⟩ := hmeets.sizes i inst hisolved hinst
  obtain ⟨own', hown', hsnapped⟩ := hsolved _ hisolved
  obtain rfl := Option.some.inj (hown.symm.trans hown')
  have hbframe : (d.writeBoxes a (correct p x config.correction).values).frozenBox? inst.template = some b := by
    rw [frozenBox?, ← hagree.frozen]
    exact hb
  obtain rfl := Option.some.inj (hdrawn.symm.trans (box?_of_frozenBox hbframe))
  exact hsnapped.of_extents (hfrozen c _ _ hc htemplate hb) hone hwidth hheight

/-! ## Solved boxes -/

/-- A successful solve without a warning leaves all boxes that it solves for on the grid, with extents of one at least;
an active cell with objects has the box around them, and an instance in an active cell has the extents of the content
that it draws. -/
theorem snapped_of_solveWith (hd : d.WellFormed) (ht : 0 ≤ config.correction.tolerance)
    (hepsilon : config.correction.tolerance < config.epsilon) (hone : config.correction.tolerance < 1)
    (hfrozen : ∀ c t b, d.Active root c → t ∈ d.templates c → d.frozenBox? t = some b → b.OnGrid)
    (h : d.solveWith root config optimizer = .ok (d', r)) (hs : r.success) (hr : r.warning = none) :
    ∃ a, Allocation.ofRoot d root = .ok a ∧ (∀ n ∈ a.nodes, ∃ b, d'.box? n = some b ∧ b.Snapped) ∧
      (∀ c, d.Active root c → d'.children c ≠ [] →
        ∃ b, d'.box? (.cell c) = some b ∧ Box.tight? (d'.childBoxes c) = some b) ∧
      ∀ c i inst, d.Active root c → .inst i ∈ d'.children c → d'.instance? i = some inst →
        ∃ own content, inst.box = some own ∧ d'.contentBox? inst.template = some content ∧
          own.width = content.width ∧ own.height = content.height := by
  have hagree := agreeOutside_solveWith h
  obtain ⟨a, p, x, hrun⟩ := solvedBy_of_success h hs
  have hwrite := agreeOutside_writeBoxes d a (correct p x config.correction).values
  have hplaced := hwrite.sameStructure.wellFormed hd
  have hsettled : d'.Settled Box.Snapped root := by
    rw [hrun.design]
    exact hplaced.settled_propagate Box.fittingKeeps_snapped (hrun.boxesFrom_snapped hd ht hepsilon hone hfrozen hr)
  have hactive : ∀ {c}, d.Active root c → d'.Active root c := hagree.active.mp
  refine ⟨a, hrun.allocated, fun n hn => ?_, fun c hc hne => ?_, fun c i inst hc hi hinst => ?_⟩
  · refine hsettled.boxes.solved n ?_
    rw [← hagree.solved]
    exact (Allocation.mem_nodes_iff hrun.allocated).mp hn
  · obtain ⟨b, hb, -⟩ := hsettled.boxes.solved _ (cell_mem_solved_iff.mpr (hactive hc))
    obtain ⟨n, hn⟩ := List.exists_mem_of_ne_nil _ hne
    obtain ⟨bn, hbn, -⟩ := hsettled.boxes.solved n ((hactive hc).child_mem_solved hn)
    refine ⟨b, hb, ?_⟩
    rw [← hb]
    exact (hsettled.fits c (hactive hc)).tight_eq (hactive hc).isActive
      (List.ne_nil_of_mem (List.mem_filterMap.mpr ⟨n, hn, hbn⟩))
  · obtain ⟨own, hown, -⟩ := hsettled.boxes.solved _ ((hactive hc).child_mem_solved hi)
    have hown : inst.box = some own := by simpa [box?, hinst] using hown
    obtain ⟨content, hcontent, -⟩ := hsettled.exists_content (hagree.sameStructure.wellFormed hd) (hactive hc)
      (mem_templates_iff.mpr ⟨i, inst, hi, hinst, rfl⟩)
    have hfits := (hsettled.fits c (hactive hc)).instances i hi inst own content hinst hown hcontent
    refine ⟨own, content, hown, hcontent, ?_, ?_⟩
    · rw [hfits, Box.width_movedTo]
    · rw [hfits, Box.height_movedTo]

theorem snapped_of_solveWith_viaPair :
    (∀ c t b, (empty.run viaPair).Active ⟨1⟩ c → t ∈ (empty.run viaPair).templates c →
      (empty.run viaPair).frozenBox? t = some b → b.OnGrid) ∧
    ∃ d' r, (empty.run viaPair).solveWith ⟨1⟩ .standard
        (fun _ => .solved #[30, 29, 38, 31, 30, 30, 38, 31, 166 / 5, 29, 176 / 5, 31, 36, 29, 38, 31]) = .ok (d', r) ∧
      r.success ∧ r.warning = none ∧
      (∃ b, d'.box? (.inst ⟨0⟩) = some b ∧ b.Snapped) ∧
      ∃ b, d'.box? (.cell ⟨1⟩) = some b ∧ Box.tight? (d'.childBoxes ⟨1⟩) = some b := by
  have hd : (empty.run viaPair).WellFormed := Reachable.wellFormed ⟨viaPair, rfl⟩
  have hcells : ∀ c, (empty.run viaPair).Active ⟨1⟩ c → c = ⟨1⟩ := by
    intro c hc
    have hmem := mem_activeCells_iff.mpr hc
    rwa [show (empty.run viaPair).activeCells ⟨1⟩ = [⟨1⟩] by decide +kernel, List.mem_singleton] at hmem
  have hfrozen : ∀ c t b, (empty.run viaPair).Active ⟨1⟩ c → t ∈ (empty.run viaPair).templates c →
      (empty.run viaPair).frozenBox? t = some b → b.OnGrid := by
    intro c t b hc ht hb
    rw [hcells c hc, show (empty.run viaPair).templates ⟨1⟩ = [⟨0⟩, ⟨0⟩] by decide +kernel] at ht
    obtain rfl : t = ⟨0⟩ := by simpa using ht
    rw [show (empty.run viaPair).frozenBox? ⟨0⟩ = some ⟨0, 0, 2, 2⟩ by decide +kernel] at hb
    obtain rfl := Option.some.inj hb
    exact ⟨.intCast 0, .intCast 0, .intCast 2, .intCast 2⟩
  have hrun : ((empty.run viaPair).solveWith ⟨1⟩ .standard (fun _ =>
      .solved #[30, 29, 38, 31, 30, 30, 38, 31, 166 / 5, 29, 176 / 5, 31, 36, 29, 38, 31])).map
        (fun (_, r) => (r.success, r.warning)) = .ok (true, none) := by decide +kernel
  refine ⟨hfrozen, ?_⟩
  cases h : (empty.run viaPair).solveWith ⟨1⟩ .standard (fun _ =>
      .solved #[30, 29, 38, 31, 30, 30, 38, 31, 166 / 5, 29, 176 / 5, 31, 36, 29, 38, 31]) with
  | error e =>
    rw [h] at hrun
    cases hrun
  | ok result =>
    obtain ⟨d', r⟩ := result
    rw [h] at hrun
    simp only [Except.map, Except.ok.injEq, Prod.mk.injEq] at hrun
    obtain ⟨a, ha, hboxes, htight, -⟩ := snapped_of_solveWith hd (by decide +kernel) (by decide +kernel)
      (by decide +kernel) hfrozen h hrun.1 hrun.2
    have hactive : (empty.run viaPair).Active ⟨1⟩ ⟨1⟩ := active_self (by decide +kernel)
    have hchild : Node.inst ⟨0⟩ ∈ (empty.run viaPair).children ⟨1⟩ := by decide +kernel
    refine ⟨d', r, rfl, hrun.1, hrun.2, ?_, htight ⟨1⟩ hactive ?_⟩
    · exact hboxes _ ((Allocation.mem_nodes_iff ha).mpr (hactive.child_mem_solved hchild))
    · rw [← (agreeOutside_solveWith h).children]
      exact List.ne_nil_of_mem hchild

end Design

end RectLayout
