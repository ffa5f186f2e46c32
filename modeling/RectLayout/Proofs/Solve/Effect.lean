import RectLayout.Proofs.Design.Fitted
import RectLayout.Proofs.Solve.Correction
import RectLayout.Proofs.Solve.InPlace
import RectLayout.Proofs.Solve.Rows

/-!
# All or nothing

A solve has two writers: the corrected point gives a box to every node of the allocation, and fitting then follows the
templates of the design. Fitting keeps what the point says of polygons, and of the lower left corners of instances, and
leaves no node without a box, as it meets none without one (`SolvedBy.isSome_box`, `SolvedBy.writes`); all that it
changes is in the allocation (`agreeOutside_solveWith`). In place, a solve that stops with an error or reports a failure
has changed nothing at all (`solve_all_or_nothing`). Nothing of this depends on what the optimizer answers.
-/

namespace RectLayout

namespace Design

open Change

variable {α : Type} [Scalar α] {d d' : Design α} {root : CellId} {a : Allocation} {config : SolveConfig α}
  {optimizer : ExternalOptimizer α} {p : Problem α} {x : Array α} {r : SolveReport α}

/-- `e` is `d` with the boxes of an allocation at a point: polygons have theirs, instances have the lower left corner of
theirs, cells have some box, and nothing else has changed. -/
structure Writes (d : Design α) (a : Allocation) (v : Array α) (e : Design α) : Prop where
  slots : ∀ n ∈ a.nodes, ∃ base, a.base? n = some base ∧ base + 3 < v.size
  bound : ∀ n ∈ a.nodes, (e.box? n).isSome
  polygon : ∀ p base, a.base? (.polygon p) = some base → e.box? (.polygon p) = some (boxAt v base)
  corner : ∀ i base, a.base? (.inst i) = some base →
    ∃ b, e.box? (.inst i) = some b ∧ b.x1 = valueAt v base ∧ b.y1 = valueAt v (base + 1)
  others : AgreeOutside {n | n ∈ a.nodes} d e

/-- The corrected point has a value for every unknown of the allocation. -/
theorem SolvedBy.size_values (h : SolvedBy d root config optimizer a p x d' r) :
    (correct p x config.correction).values.size = a.numVars := by
  obtain ⟨all, -, hrows⟩ := Compiled.exists_rows_of_compile h.compiled
  have hvars := congrArg (fun c => c.problem.numVars) hrows
  rw [size_correct, h.size]
  exact hvars.symm

/-- Writing gives a listed node with first unknown `base` the box there. -/
theorem SolvedBy.box_placed (h : SolvedBy d root config optimizer a p x d' r) (hd : d.WellFormed) {n : Node}
    {base : Nat} (hbase : a.base? n = some base) :
    (d.writeBoxes a (correct p x config.correction).values).box? n =
      some (boxAt (correct p x config.correction).values base) := by
  have hn : n ∈ a.nodes := Allocation.isSome_base?_iff.mp (by rw [hbase]; rfl)
  rw [box_writeBoxes_of_mem hd h.allocated _ hn, Allocation.boxOf?, hbase]
  rfl

/-- A successful solve leaves no node of its allocation without a box: fitting keeps that all have one. -/
theorem SolvedBy.isSome_box (h : SolvedBy d root config optimizer a p x d' r) (hd : d.WellFormed) {n : Node}
    (hn : n ∈ a.nodes) : (d'.box? n).isSome := by
  have hwrite := agreeOutside_writeBoxes d a (correct p x config.correction).values
  have hfit := agreeOutside_propagate (d.writeBoxes a (correct p x config.correction).values) root
  have hkeeps : FittingKeeps (α := α) fun _ => True := ⟨fun _ _ _ _ => trivial, fun _ _ _ _ => trivial⟩
  have hboxes : (d.writeBoxes a (correct p x config.correction).values).BoxesFrom (fun _ => True) root := by
    refine ⟨fun m hm => ?_, fun _ _ _ _ _ _ => trivial⟩
    rw [← hwrite.solved root, ← Allocation.mem_nodes_iff h.allocated] at hm
    obtain ⟨base, hbase, -⟩ := Allocation.exists_base hm
    exact ⟨_, h.box_placed hd hbase, trivial⟩
  have hsettled := (hwrite.sameStructure.wellFormed hd).settled_propagate hkeeps hboxes
  rw [Allocation.mem_nodes_iff h.allocated, hwrite.solved root, hfit.solved root] at hn
  obtain ⟨b, hb, -⟩ := hsettled.boxes.solved n hn
  rw [h.design, hb]
  rfl

/-- A successful solve writes the corrected point and nothing else. -/
theorem SolvedBy.writes (h : SolvedBy d root config optimizer a p x d' r) (hd : d.WellFormed)
    (hreturn : d.solveWith root config optimizer = .ok (d', r)) :
    Writes d a (correct p x config.correction).values d' := by
  refine ⟨fun n hn => ?_, fun n => h.isSome_box hd, fun q base hbase => ?_, fun i base hbase => ?_, ?_⟩
  · rw [h.size_values]
    exact Allocation.exists_base hn
  · have hnot : Node.polygon q ∉ (d.writeBoxes a (correct p x config.correction).values).fitted root := by
      simp [fitted]
    rw [h.design, ← (agreeOutside_propagate _ root).box hnot, h.box_placed hd hbase]
  · have hcorner := storedCorner_propagate (d.writeBoxes a (correct p x config.correction).values) root i
    have hstored : (d.writeBoxes a (correct p x config.correction).values).stored? (.inst i) = _ :=
      h.box_placed hd hbase
    rw [← h.design, storedCorner?, storedCorner?, hstored] at hcorner
    obtain ⟨b, hb, hxy⟩ := Option.map_eq_some_iff.mp hcorner
    simp only [Prod.mk.injEq] at hxy
    exact ⟨b, hb, hxy.1, hxy.2⟩
  · exact (agreeOutside_solveWith hreturn).mono fun n hn => (Allocation.mem_nodes_iff h.allocated).mpr hn

/-- A solve in place leaves the design as it was if it stops with an error or reports a failure, and else it writes the
corrected point to the nodes of its allocation and nothing else. -/
theorem solve_all_or_nothing (hd : d.WellFormed) (root : CellId) (config : SolveConfig α)
    (optimizer : ExternalOptimizer α) : (solveInPlace root config optimizer).Does d (d.solveWith root config optimizer) ∧
    (solveInPlace root config optimizer).Safe d ∧
    ∀ r d', (solveInPlace root config optimizer).outcome d = (.ok r, d') →
      (r.success = false → d' = d) ∧
      (r.success → ∃ a p x, SolvedBy d root config optimizer a p x d' r ∧
        Writes d a (correct p x config.correction).values d') := by
  have hdoes := does_solveInPlace d root config optimizer
  refine ⟨hdoes, hdoes.safe, fun r d' hout => ?_⟩
  have hreturn := hdoes.eq_ok hout
  refine ⟨fun hfailed => ?_, fun hs => ?_⟩
  · rcases solveWith_ok hreturn with ⟨a, c, hrun⟩ | ⟨a, p, x, hrun⟩
    · exact hrun.design
    · rw [hrun.report] at hfailed
      cases hfailed
  · obtain ⟨a, p, x, hrun⟩ := solvedBy_of_success hreturn hs
    exact ⟨a, p, x, hrun, hrun.writes hd hreturn⟩

/-- A solve that succeeds, one whose optimizer answers with a point that is too short, and one of a cell that there is
not. -/
theorem solve_all_or_nothing_viaPair : (empty.run viaPair).WellFormed ∧
    (∃ r d' a v, (solveInPlace ⟨1⟩ .standard fun _ => .solved
        #[30, 29, 38, 31, 30, 30, 38, 31, 166 / 5, 29, 176 / 5, 31, 36, 29, 38, 31]).outcome (empty.run viaPair) =
          (.ok r, d') ∧
      r.success ∧ Allocation.ofRoot (empty.run viaPair) ⟨1⟩ = .ok a ∧ .inst ⟨0⟩ ∈ a.nodes ∧
      Writes (empty.run viaPair) a v d') ∧
    (∃ r, (solveInPlace ⟨1⟩ .standard fun _ => .solved #[0]).outcome (empty.run viaPair) = (.ok r, empty.run viaPair)) ∧
    ∃ e, (solveInPlace ⟨9⟩ .standard (minimize : Optimizer Rat)).outcome (empty.run viaPair) =
      (.error e, empty.run viaPair) := by
  have hd : (empty.run viaPair).WellFormed := Reachable.wellFormed ⟨viaPair, rfl⟩
  refine ⟨hd, ?_, ?_, ?_⟩
  · obtain ⟨-, -, hwritten⟩ := solve_all_or_nothing hd ⟨1⟩ .standard fun _ =>
      .solved #[30, 29, 38, 31, 30, 30, 38, 31, 166 / 5, 29, 176 / 5, 31, 36, 29, 38, 31]
    have hrun : ((solveInPlace ⟨1⟩ .standard fun _ =>
        .solved #[30, 29, 38, 31, 30, 30, 38, 31, 166 / 5, 29, 176 / 5, 31, 36, 29, 38, 31]).outcome
          (empty.run viaPair)).1.map SolveReport.success = .ok true := by decide +kernel
    obtain ⟨r, d', hout, hs⟩ := exists_outcome hrun
    obtain ⟨a, p, x, hsolved, hwrites⟩ := (hwritten r d' hout).2 hs
    have hactive : (empty.run viaPair).Active ⟨1⟩ ⟨1⟩ := active_self (by decide +kernel)
    have hchild : Node.inst ⟨0⟩ ∈ (empty.run viaPair).children ⟨1⟩ := by decide +kernel
    exact ⟨r, d', a, _, hout, hs, hsolved.allocated,
      (Allocation.mem_nodes_iff hsolved.allocated).mpr (hactive.child_mem_solved hchild), hwrites⟩
  · obtain ⟨-, -, hwritten⟩ := solve_all_or_nothing hd ⟨1⟩ .standard fun _ => .solved #[0]
    have hrun : ((solveInPlace ⟨1⟩ .standard fun _ => .solved #[0]).outcome (empty.run viaPair)).1.map
        SolveReport.success = .ok false := by decide +kernel
    obtain ⟨r, d', hout, hfailed⟩ := exists_outcome hrun
    exact ⟨r, by rw [hout, (hwritten r d' hout).1 hfailed]⟩
  · obtain ⟨-, hsafe, -⟩ := solve_all_or_nothing hd ⟨9⟩ .standard (minimize : Optimizer Rat)
    have hrun : ((solveInPlace ⟨9⟩ .standard (minimize : Optimizer Rat)).outcome (empty.run viaPair)).1 =
        .error .invalidHandle := by decide +kernel
    exact ⟨_, hsafe.outcome_eq hrun⟩

end Design

end RectLayout
