import RectLayout.Proofs.Design.Nested
import RectLayout.Proofs.Solve.Effect
import RectLayout.Proofs.Solve.Grid

/-!
# The reported area

A solve reports the total area of the polygons and instances where it placed them (`SolvedBy.objective_eq`). Instances
are fitted after that, so the report says too much by what they lose then. If the solve gives no warning, the boxes that
it places nest (`SolvedBy.nests`), and fitting makes none of them larger; the report is then never below the area that
is stored, and it is this area exactly if no instance has lost anything, for example because all templates are frozen
(`objective_eq_stored_add_lost`). A template with a box that is larger than its content makes it wrong
(`not_objective_eq_stored`).
-/

namespace RectLayout

/-! ## Areas -/

/-- A node is a polygon or an instance. -/
def Node.isObject : Node → Bool
  | .cell _ => false
  | _ => true

/-- The instance that a node is. -/
def Node.inst? : Node → Option InstanceId
  | .inst i => some i
  | _ => none

/-- The polygons and instances of an allocation. -/
def Allocation.objects (a : Allocation) : List Node := a.nodes.filter Node.isObject

/-- The instances of an allocation. -/
def Allocation.instances (a : Allocation) : List InstanceId := a.nodes.filterMap Node.inst?

/-- The polygons and instances are where `bases` has them. -/
theorem Allocation.objects_eq (a : Allocation) : a.objects = (a.bases.filter fun q => q.1.isObject).map Prod.fst := by
  have hnodes : a.nodes = a.bases.map Prod.fst := by simp [bases, Function.comp_def, List.zipIdx_map_fst]
  rw [objects, hnodes, List.filter_map]
  rfl

theorem Allocation.mem_instances_iff {a : Allocation} {i : InstanceId} : i ∈ a.instances ↔ .inst i ∈ a.nodes := by
  rw [instances, List.mem_filterMap]
  constructor
  · rintro ⟨n, hn, hi⟩
    cases n <;> cases hi
    exact hn
  · exact fun hi => ⟨_, hi, rfl⟩

namespace Design

/-- The area of the box of a node, nothing if it has no box. -/
def areaOf (d : Design Rat) (n : Node) : Rat := ((d.box? n).map Box.area).getD 0

/-- The total area of the polygons and instances of an allocation. -/
def totalArea (d : Design Rat) (a : Allocation) : Rat := (a.objects.map d.areaOf).sum

variable {d d' e : Design Rat} {root : CellId} {a : Allocation} {config : SolveConfig Rat}
  {optimizer : ExternalOptimizer Rat} {p : Problem Rat} {x : Array Rat} {r : SolveReport Rat}

theorem areaOf_eq {n : Node} {b : Box Rat} (h : d.box? n = some b) : d.areaOf n = b.area := by
  rw [areaOf, h]
  rfl

/-- Designs whose polygons have the same boxes differ in total area by what the areas of instances differ. -/
theorem totalArea_eq_add (h : ∀ q, .polygon q ∈ a.nodes → e.box? (.polygon q) = d.box? (.polygon q)) :
    e.totalArea a = d.totalArea a + (a.instances.map fun i => e.areaOf (.inst i) - d.areaOf (.inst i)).sum := by
  unfold totalArea Allocation.objects Allocation.instances
  generalize a.nodes = l at h
  induction l with
  | nil => simp
  | cons n l ih =>
    have ih := ih fun q hq => h q (List.mem_cons_of_mem n hq)
    cases n with
    | cell c => simpa [List.filterMap_cons, Node.isObject, Node.inst?] using ih
    | polygon q =>
      have hq : e.areaOf (.polygon q) = d.areaOf (.polygon q) := by rw [areaOf, areaOf, h q List.mem_cons_self]
      simp only [List.filter_cons, List.filterMap_cons, Node.isObject, Node.inst?, if_true, List.map_cons,
        List.sum_cons, hq]
      linarith
    | inst i =>
      simp only [List.filter_cons, List.filterMap_cons, Node.isObject, Node.inst?, if_true, List.map_cons,
        List.sum_cons]
      linarith

/-! ## Placed boxes -/

/-- The area of a compiled problem is taken over the polygons and instances of the allocation. -/
theorem boxes_of_compile {c : Compiled Rat} (h : compile d a config = .ok c) :
    c.problem.boxes = (a.bases.filter fun q => q.1.isObject).map Prod.snd := by
  obtain ⟨all, -, rfl⟩ := Compiled.exists_rows_of_compile h
  simp only [Compiled.ofRows, List.partition_eq_filter_filter]
  congr 1
  refine List.filter_congr fun q _ => ?_
  obtain ⟨n, b⟩ := q
  cases n <;> rfl

/-- A solve reports the area of what it placed. -/
theorem SolvedBy.objective_eq (hrun : SolvedBy d root config optimizer a p x d' r) (hd : d.WellFormed) :
    r.objective = (d.writeBoxes a (correct p x config.correction).values).totalArea a := by
  have hboxes := boxes_of_compile hrun.compiled
  rw [hrun.report, area, Scalar.sum_eq_list_sum, totalArea, a.objects_eq, hboxes, List.map_map, List.map_map]
  refine congrArg List.sum (List.map_congr_left fun q hq => ?_)
  obtain ⟨n, b⟩ := q
  have hbase := (Allocation.mem_bases_iff (Allocation.nodup_nodes hd hrun.allocated)).mp (List.mem_filter.mp hq).1
  exact (areaOf_eq (hrun.box_placed hd hbase)).symm

/-- A box that is solved for is on the grid if all of them are snapped. -/
theorem BoxesFrom.onGrid (hs : e.BoxesFrom Box.Snapped root) {n : Node} {b : Box Rat} (hn : n ∈ e.solved root)
    (hb : e.box? n = some b) : b.OnGrid := by
  obtain ⟨b', hb', hsnap⟩ := hs.solved n hn
  obtain rfl := Option.some.inj (hb.symm.trans hb')
  exact hsnap.onGrid

/-- So is the box of the template of an instance, which is solved for or frozen. -/
theorem BoxesFrom.onGrid_template (hs : e.BoxesFrom Box.Snapped root) (he : e.WellFormed) {i : InstanceId}
    {inst : Instance Rat} {b : Box Rat} (hi : .inst i ∈ e.solved root) (hinst : e.instance? i = some inst)
    (hb : e.box? (.cell inst.template) = some b) : b.OnGrid := by
  obtain ⟨c, hc, ht⟩ := exists_active_of_solved hi hinst
  rcases he.isActive_or_frozenBox ht with hlive | ⟨b', hb'⟩
  · exact hs.onGrid (cell_mem_solved_iff.mpr (hc.template ht hlive)) hb
  · obtain rfl := Option.some.inj (hb.symm.trans (box?_of_frozenBox hb'))
    exact (hs.frozen c _ _ hc ht hb').onGrid

/-- Wanted boxes nest if they are snapped: what is wanted up to less than one is so exactly. -/
theorem Meets.nests {S : Set Node} {t : Rat} (hmeets : d.Meets root config t e.box?) (hagree : AgreeOutside S d e)
    (he : e.WellFormed) (hs : e.BoxesFrom Box.Snapped root) (ht : t < 1) : e.Nests root where
  bound n hn := by
    obtain ⟨b, hb, -⟩ := hs.solved n hn
    exact ⟨b, hb⟩
  inside c n outer inner hc hn houter hinner := by
    have hinnerGrid := hs.onGrid (hc.child_mem_solved hn) hinner
    rw [← hagree.children] at hn
    obtain ⟨outer', inner', houter', hinner', hx1, hy1, hx2, hy2⟩ := hmeets.inside c (hagree.active.mpr hc) n hn
    obtain rfl := Option.some.inj (houter.symm.trans houter')
    obtain rfl := Option.some.inj (hinner.symm.trans hinner')
    exact hinnerGrid.within (hs.onGrid (cell_mem_solved_iff.mpr hc) houter) ht hx1 hy1 hx2 hy2
  sizes i inst own hi hinst hown := by
    obtain ⟨inst', hinst', htemplate⟩ : ∃ inst', d.instance? i = some inst' ∧ inst'.template = inst.template := by
      have htemplate := hagree.template i
      rw [hinst, Option.map_some] at htemplate
      exact Option.map_eq_some_iff.mp htemplate
    have hsolved := hi
    rw [← hagree.solved] at hsolved
    obtain ⟨own', drawn, hown', hdrawn, hwidth, hheight⟩ := hmeets.sizes i inst' hsolved hinst'
    obtain rfl := Option.some.inj (hown.symm.trans hown')
    rw [htemplate] at hdrawn
    obtain ⟨hwidth, hheight⟩ :=
      (hs.onGrid hi hown).extents_eq (hs.onGrid_template he hi hinst hdrawn) ht hwidth hheight
    exact ⟨drawn, hdrawn, hwidth.symm, hheight.symm⟩

/-- The boxes that a solve places nest if it gives no warning and the frozen templates are on the grid. -/
theorem SolvedBy.nests (hrun : SolvedBy d root config optimizer a p x d' r) (hd : d.WellFormed)
    (ht : 0 ≤ config.correction.tolerance) (hepsilon : config.correction.tolerance < config.epsilon)
    (hone : config.correction.tolerance < 1)
    (hfrozen : ∀ c t b, d.Active root c → t ∈ d.templates c → d.frozenBox? t = some b → b.OnGrid)
    (hr : r.warning = none) : (d.writeBoxes a (correct p x config.correction).values).Nests root := by
  have hagree := agreeOutside_writeBoxes d a (correct p x config.correction).values
  exact (hrun.meets hd ht hr).nests hagree (hagree.sameStructure.wellFormed hd)
    (hrun.boxesFrom_snapped hd ht hepsilon hone hfrozen hr) hone

/-! ## Stored boxes -/

/-- Fitting boxes that nest makes no area larger, and keeps an area only if it keeps the box. -/
theorem Nests.areaOf_propagate (hn : e.Nests root) (he : e.WellFormed) (hsnapped : e.BoxesFrom Box.Snapped root)
    {n : Node} (hs : n ∈ e.solved root) :
    (e.propagate root).areaOf n ≤ e.areaOf n ∧
      ((e.propagate root).areaOf n = e.areaOf n → (e.propagate root).box? n = e.box? n) := by
  obtain ⟨before, after, hbefore, hafter, hwithin⟩ := hn.shrinks he hs
  have hsettled := he.settled_propagate Box.fittingKeeps_snapped hsnapped
  rw [(agreeOutside_propagate e root).solved] at hs
  obtain ⟨after', hafter', hsnap⟩ := hsettled.boxes.solved n hs
  obtain rfl := Option.some.inj (hafter.symm.trans hafter')
  rw [areaOf_eq hbefore, areaOf_eq hafter, hbefore, hafter]
  exact ⟨hwithin.area_le hsnap, fun harea => congrArg some (hwithin.eq_of_area_eq hsnap harea)⟩

/-- What fitting takes from the total area it takes from instances. -/
theorem totalArea_eq_propagate_add (e : Design Rat) (root : CellId) (a : Allocation) :
    e.totalArea a = (e.propagate root).totalArea a +
      (a.instances.map fun i => e.areaOf (.inst i) - (e.propagate root).areaOf (.inst i)).sum :=
  totalArea_eq_add fun q _ => (agreeOutside_propagate e root).box (by simp [fitted])

/-- Fitting boxes that nest makes the total area no larger, and keeps it exactly if all instances keep their boxes. -/
theorem Nests.totalArea_propagate (hn : e.Nests root) (he : e.WellFormed) (hsnapped : e.BoxesFrom Box.Snapped root)
    (ha : ∀ i ∈ a.instances, .inst i ∈ e.solved root) :
    (e.propagate root).totalArea a ≤ e.totalArea a ∧
      ((e.propagate root).totalArea a = e.totalArea a ↔
        ∀ i ∈ a.instances, (e.propagate root).box? (.inst i) = e.box? (.inst i)) := by
  have hadd := totalArea_eq_propagate_add e root a
  have hnonneg : ∀ y ∈ a.instances.map fun i => e.areaOf (.inst i) - (e.propagate root).areaOf (.inst i), 0 ≤ y := by
    rintro y hy
    obtain ⟨i, hi, rfl⟩ := List.mem_map.mp hy
    exact sub_nonneg.mpr (hn.areaOf_propagate he hsnapped (ha i hi)).1
  have hsum := List.sum_nonneg hnonneg
  refine ⟨by linarith, fun harea i hi => ?_, fun hboxes => ?_⟩
  · have hzero := List.all_zero_of_le_zero_le_of_sum_eq_zero hnonneg (by linarith) (List.mem_map_of_mem hi)
    exact (hn.areaOf_propagate he hsnapped (ha i hi)).2 (sub_eq_zero.mp hzero).symm
  · have hmap : (a.instances.map fun i => e.areaOf (.inst i) - (e.propagate root).areaOf (.inst i)) =
        a.instances.map fun _ => 0 :=
      List.map_congr_left fun i hi => by rw [areaOf, areaOf, hboxes i hi, sub_self]
    rw [hadd, hmap]
    simp

/-- A successful solve reports the area of the polygons and instances where it placed them. That is the area that is
stored and what instances have lost when they were fitted. If there is no warning, and the frozen templates are on the
grid, nothing that is stored is larger than it was placed: the report is the stored area if and only if all instances
have kept their boxes, as they do if all templates are frozen. -/
theorem objective_eq_stored_add_lost (hd : d.WellFormed) (h : d.solveWith root config optimizer = .ok (d', r))
    (hs : r.success) :
    ∃ a p x placed, SolvedBy d root config optimizer a p x d' r ∧
      placed = d.writeBoxes a (correct p x config.correction).values ∧ (∀ n ∈ a.nodes, (d'.box? n).isSome) ∧
      r.objective = placed.totalArea a ∧
      r.objective = d'.totalArea a + (a.instances.map fun i => placed.areaOf (.inst i) - d'.areaOf (.inst i)).sum ∧
      (0 ≤ config.correction.tolerance → config.correction.tolerance < config.epsilon →
        config.correction.tolerance < 1 →
        (∀ c t b, d.Active root c → t ∈ d.templates c → d.frozenBox? t = some b → b.OnGrid) → r.warning = none →
        d'.totalArea a ≤ r.objective ∧
        (d'.totalArea a = r.objective ↔ ∀ i ∈ a.instances, d'.box? (.inst i) = placed.box? (.inst i)) ∧
        ((∀ c t, d.Active root c → t ∈ d.templates c → ¬ d.isActive t) → d'.totalArea a = r.objective)) := by
  obtain ⟨a, p, x, hrun⟩ := solvedBy_of_success h hs
  have hobjective := hrun.objective_eq hd
  have hagree := agreeOutside_writeBoxes d a (correct p x config.correction).values
  have hplaced := hagree.sameStructure.wellFormed hd
  refine ⟨a, p, x, _, hrun, rfl, fun n hn => hrun.isSome_box hd hn, hobjective, ?_, fun ht hepsilon hone hfrozen hr => ?_⟩
  · rw [hobjective, hrun.design]
    exact totalArea_eq_propagate_add _ root a
  · have hnests := hrun.nests hd ht hepsilon hone hfrozen hr
    have hsnapped := hrun.boxesFrom_snapped hd ht hepsilon hone hfrozen hr
    rw [hobjective, hrun.design]
    generalize d.writeBoxes a (correct p x config.correction).values = placed at hagree hplaced hnests hsnapped ⊢
    have hsolved : ∀ i ∈ a.instances, .inst i ∈ placed.solved root := by
      intro i hi
      rw [← hagree.solved]
      exact (Allocation.mem_nodes_iff hrun.allocated).mp (Allocation.mem_instances_iff.mp hi)
    obtain ⟨hle, heq⟩ := hnests.totalArea_propagate hplaced hsnapped hsolved
    refine ⟨hle, heq, fun hnone => heq.mpr fun i hi => ?_⟩
    refine hnests.box_propagate_of_templates hplaced (hsolved i hi) fun c t hc htemplate => ?_
    rw [← hagree.isActive]
    rw [← hagree.templates] at htemplate
    exact hnone c t (hagree.active.mpr hc) htemplate

/-! ## A box that is larger than its content -/

/-- A unit has a box of 10 by 10 around a polygon of 5 by 5, and a top cell draws it. -/
def looseUnit : List (Operation Rat) :=
  [.addCell "unit", .addPolygon ⟨0⟩ "p" "met1", .constrain ⟨0⟩ (.polygon ⟨0⟩) "width=5,height=5" none,
    .constrain ⟨0⟩ (.cell ⟨0⟩) "width=10,height=10" none, .addCell "top", .addInstance ⟨1⟩ "i" ⟨0⟩]

/-- The design of `looseUnit` after a solve: the unit, and with it the instance, has shrunk to the polygon. -/
def solvedLooseUnit : Design Rat :=
  ((((empty.run looseUnit).writeBox (.cell ⟨0⟩) (some ⟨65, 65, 70, 70⟩)).writeBox (.polygon ⟨0⟩)
    (some ⟨65, 65, 70, 70⟩)).writeBox (.cell ⟨1⟩) (some ⟨0, 0, 5, 5⟩)).writeBox (.inst ⟨0⟩) (some ⟨0, 0, 5, 5⟩)

theorem solveWith_looseUnit : (empty.run looseUnit).solveWith ⟨1⟩ .standard
    (fun _ => .solved #[0, 0, 10, 10, 0, 0, 10, 10, 60, 60, 70, 70, 65, 65, 70, 70]) =
      .ok (solvedLooseUnit, ⟨true, "", some .round, none, 125, 16⟩) := by
  decide +kernel

theorem ofRoot_looseUnit : Allocation.ofRoot (empty.run looseUnit) ⟨1⟩ =
    .ok ⟨[.cell ⟨1⟩, .inst ⟨0⟩, .cell ⟨0⟩, .polygon ⟨0⟩], [⟨1⟩, ⟨0⟩]⟩ := by
  decide +kernel

theorem totalArea_looseUnit :
    solvedLooseUnit.totalArea ⟨[.cell ⟨1⟩, .inst ⟨0⟩, .cell ⟨0⟩, .polygon ⟨0⟩], [⟨1⟩, ⟨0⟩]⟩ = 50 := by
  decide +kernel

/-- The solve gives no warning and reports 125, where the instance has lost 75. -/
theorem objective_eq_stored_add_lost_looseUnit : (empty.run looseUnit).WellFormed ∧
    (empty.run looseUnit).solveWith ⟨1⟩ .standard
      (fun _ => .solved #[0, 0, 10, 10, 0, 0, 10, 10, 60, 60, 70, 70, 65, 65, 70, 70]) =
        .ok (solvedLooseUnit, ⟨true, "", some .round, none, 125, 16⟩) ∧
    ∃ (a : Allocation) (placed : Design Rat), Allocation.ofRoot (empty.run looseUnit) ⟨1⟩ = .ok a ∧
    placed.totalArea a = 125 ∧ solvedLooseUnit.totalArea a = 50 ∧
    (a.instances.map fun i => placed.areaOf (.inst i) - solvedLooseUnit.areaOf (.inst i)).sum = 75 ∧
    ∃ i ∈ a.instances, solvedLooseUnit.box? (.inst i) ≠ placed.box? (.inst i) := by
  have hd : (empty.run looseUnit).WellFormed := Reachable.wellFormed ⟨looseUnit, rfl⟩
  have hnone : ∀ c ∈ (empty.run looseUnit).activeCells ⟨1⟩, ∀ t ∈ (empty.run looseUnit).templates c,
      (empty.run looseUnit).frozenBox? t = none := by decide +kernel
  obtain ⟨a, p, x, placed, hrun, -, -, hobjective, hlost, hexact⟩ :=
    objective_eq_stored_add_lost hd solveWith_looseUnit rfl
  obtain rfl := Except.ok.inj (hrun.allocated.symm.trans ofRoot_looseUnit)
  obtain ⟨-, hkept, -⟩ := hexact (by decide +kernel) (by decide +kernel) (by decide +kernel)
    (fun c t b hc ht hb => by rw [hnone c (mem_activeCells_iff.mpr hc) t ht] at hb; cases hb) rfl
  rw [totalArea_looseUnit] at hlost hkept
  refine ⟨hd, solveWith_looseUnit, _, placed, ofRoot_looseUnit, hobjective.symm, totalArea_looseUnit, ?_, ?_⟩
  · simp only at hlost
    linarith
  · by_contra hno
    have harea := hkept.mpr fun i hi => by_contra fun hne => hno ⟨i, hi, hne⟩
    norm_num at harea

/-- The report is not always the area that is stored. -/
theorem not_objective_eq_stored : ¬ ∀ (d d' : Design Rat) (root : CellId) (config : SolveConfig Rat)
    (optimizer : ExternalOptimizer Rat) (r : SolveReport Rat) (a : Allocation), d.WellFormed →
    d.solveWith root config optimizer = .ok (d', r) → r.success → Allocation.ofRoot d root = .ok a →
    r.objective = d'.totalArea a := by
  intro h
  have harea := h _ _ ⟨1⟩ .standard _ _ _ (Reachable.wellFormed ⟨looseUnit, rfl⟩) solveWith_looseUnit rfl ofRoot_looseUnit
  rw [totalArea_looseUnit] at harea
  norm_num at harea

end Design

end RectLayout
