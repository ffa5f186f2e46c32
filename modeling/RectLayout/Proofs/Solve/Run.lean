import RectLayout.Proofs.Solve.Allocation

/-!
# The runs of a solve

A solve that returns has allocated and compiled. Either it has no point, says why and leaves the design (`FailedBy`), or
it has a point of the optimizer, writes the corrected boxes and fits them (`SolvedBy`, `solveWith_ok`). In both cases it
changes no boxes but those of the nodes it solves for (`agreeOutside_solveWith`).
-/

namespace RectLayout.Design

variable {α : Type} [Scalar α] {d d' : Design α} {root : CellId} {config : SolveConfig α}
  {optimizer : ExternalOptimizer α} {r : SolveReport α}

/-- What a solve without a point says: that constants contradict the constraints, or else what the optimizer says, which
may also have answered with a point of the wrong length. It leaves the design as it was. -/
structure FailedBy (d : Design α) (root : CellId) (config : SolveConfig α) (optimizer : ExternalOptimizer α)
    (a : Allocation) (c : Compiled α) (d' : Design α) (r : SolveReport α) : Prop where
  allocated : Allocation.ofRoot d root = .ok a
  compiled : compile d a config = .ok c
  found : c.infeasible = [] → (optimizer c.problem).success → (optimizer c.problem).x.size ≠ c.problem.numVars
  design : d' = d
  report : r = .failed (if c.infeasible.isEmpty then (optimizer c.problem).message
    else SolveReport.neverHold c.infeasible) a.numVars

/-- What a successful solve has done: it found a point, corrected it, and wrote and fitted the boxes. -/
structure SolvedBy (d : Design α) (root : CellId) (config : SolveConfig α) (optimizer : ExternalOptimizer α)
    (a : Allocation) (p : Problem α) (x : Array α) (d' : Design α) (r : SolveReport α) : Prop where
  allocated : Allocation.ofRoot d root = .ok a
  compiled : compile d a config = .ok ⟨p, []⟩
  success : (optimizer p).success
  found : (optimizer p).x = x
  size : x.size = p.numVars
  design : d' = (d.writeBoxes a (correct p x config.correction).values).propagate root
  report : r = ⟨true, "", some (correct p x config.correction).strategy, (correct p x config.correction).warning,
    area p.boxes (correct p x config.correction).values, a.numVars⟩

theorem FailedBy.success_eq_false {a : Allocation} {c : Compiled α}
    (h : FailedBy d root config optimizer a c d' r) : r.success = false := by
  rw [h.report]
  rfl

/-- A solve that returns either reports why it has no point, or is done in full. -/
theorem solveWith_ok (h : d.solveWith root config optimizer = .ok (d', r)) :
    (∃ a c, FailedBy d root config optimizer a c d' r) ∨ ∃ a p x, SolvedBy d root config optimizer a p x d' r := by
  unfold solveWith at h
  cases ha : Allocation.ofRoot d root with
  | error e => simp [ha, bind, Except.bind] at h
  | ok a =>
    cases hc : compile d a config with
    | error e => simp [ha, hc, bind, Except.bind] at h
    | ok c =>
      obtain ⟨p, infeasible⟩ := c
      simp only [ha, hc, bind, Except.bind, pure, Except.pure] at h
      split at h
      · rename_i hinf
        split at h
        · rename_i hfound
          cases h
          rw [List.isEmpty_iff.mp hinf] at hc
          exact .inr ⟨a, p, _, ha, hc, hfound.1, rfl, hfound.2, rfl, rfl⟩
        · rename_i hfound
          cases h
          exact .inl ⟨a, _, ha, hc, fun _ hs hsize => hfound ⟨hs, hsize⟩, rfl, by rw [if_pos hinf]⟩
      · rename_i hinf
        cases h
        exact .inl ⟨a, _, ha, hc, fun hnil => absurd (List.isEmpty_iff.mpr hnil) hinf, rfl, by rw [if_neg hinf]⟩

/-- A successful solve is done in full. -/
theorem solvedBy_of_success (h : d.solveWith root config optimizer = .ok (d', r)) (hs : r.success) :
    ∃ a p x, SolvedBy d root config optimizer a p x d' r := by
  rcases solveWith_ok h with ⟨a, c, hfailed⟩ | h
  · rw [hfailed.success_eq_false] at hs
    cases hs
  · exact h

/-- A solve changes no boxes but those of the nodes it solves for. -/
theorem agreeOutside_solveWith (h : d.solveWith root config optimizer = .ok (d', r)) :
    AgreeOutside (d.solved root) d d' := by
  rcases solveWith_ok h with ⟨a, c, hfailed⟩ | ⟨a, p, x, hrun⟩
  · rw [hfailed.design]
    exact .refl _ _
  · have hwrite : AgreeOutside (d.solved root) d (d.writeBoxes a (correct p x config.correction).values) :=
      (agreeOutside_writeBoxes d a _).mono fun n hn => (Allocation.mem_nodes_iff hrun.allocated).mp hn
    have hfit := (agreeOutside_propagate (d.writeBoxes a (correct p x config.correction).values) root).mono
      (fitted_subset_solved _ root)
    rw [← hwrite.solved root] at hfit
    rw [hrun.design]
    exact hwrite.trans hfit

end RectLayout.Design
