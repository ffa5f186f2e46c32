import RectLayout.Proofs.Design.InPlace
import RectLayout.Proofs.Traverse
import RectLayout.Solve.Pipeline

/-!
# A solve in place

A caller who holds one design has a solve write into it box by box: first each node of the allocation, then each
instance and each cell that is fitted (`solveInPlace`). All that can go wrong does so before the first write, so the
solve leaves the design that it returns, and the design that it was given if it stops (`does_solveInPlace`).
-/

namespace RectLayout.Design

variable {α β γ : Type}

open Change

namespace Change

theorem outcome_get_bind (m : Design α → Change α β) (d : Design α) : (get >>= m).outcome d = (m d).outcome d := rfl

/-- A change that goes on from another one that did not fail. -/
theorem outcome_bind_of_ok {m : Change α β} {k : β → Change α γ} {d e : Design α} {x : β}
    (h : m.outcome d = (.ok x, e)) : (m >>= k).outcome d = (k x).outcome e := by
  have hbind : (m >>= k).outcome d = ExceptT.bindCont k (m.outcome d).1 (m.outcome d).2 := rfl
  rw [hbind, h]
  rfl

/-- Changes that are made one after another lead where a fold leads. -/
theorem outcome_forM {change : β → Change α Unit} {edit : Design α → β → Design α}
    (h : ∀ b d, (change b).outcome d = (.ok (), edit d b)) (l : List β) (d : Design α) :
    (l.forM change).outcome d = (.ok (), l.foldl edit d) := by
  induction l generalizing d with
  | nil => rfl
  | cons b l ih =>
    show (change b >>= fun _ => l.forM change).outcome d = _
    rw [outcome_bind_of_ok (h b d), ih, List.foldl_cons]

variable {m : Change α β} {d d' : Design α} {x : β}

theorem exists_outcome {f : β → γ} {y : γ} (h : (m.outcome d).1.map f = .ok y) :
    ∃ x d', m.outcome d = (.ok x, d') ∧ f x = y := by
  obtain ⟨x, hx, hf⟩ := map_eq_ok_iff.mp h
  exact ⟨x, (m.outcome d).2, Prod.ext hx rfl, hf⟩

/-- What a change returns and leaves is what the edit returns that it does. -/
theorem Does.eq_ok {edit : Except LayoutError (Design α × β)} (h : m.Does d edit) (hout : m.outcome d = (.ok x, d')) :
    edit = .ok (d', x) := by
  cases edit with
  | error e => cases hout.symm.trans h
  | ok result =>
    obtain ⟨hresult, hd'⟩ := Prod.mk.inj (hout.symm.trans h)
    rw [Except.ok.inj hresult, hd']

theorem Safe.outcome_eq {e : LayoutError} (h : m.Safe d) (he : (m.outcome d).1 = .error e) :
    m.outcome d = (.error e, d) :=
  Prod.ext he (h e _ (Prod.ext he rfl))

end Change

variable [Scalar α]

/-! ## The writers -/

/-- Gives every node of an allocation its box at a point. -/
def writeBoxesInPlace (a : Allocation) (x : Array α) : Change α Unit :=
  a.nodes.forM fun n =>
    match a.boxOf? n x with
    | some box => modify fun d => d.writeBox n (some box)
    | none => return ()

/-- Fits the instances of a cell, and then the cell, to their content. -/
def refitInPlace (c : CellId) : Change α Unit := do
  match (← get).cell? c with
  | none => return ()
  | some cell =>
    cell.instances.forM fun i => modify fun d => d.refitInstance i
    modify fun d => d.refitBox c

/-- Fits the active cells below a root to their content. -/
def propagateInPlace (root : CellId) : Change α Unit := do
  ((← get).activePostorder root).forM refitInPlace

/-- A solve from a root cell with any optimizer. -/
def solveInPlace (root : CellId) (config : SolveConfig α) (optimizer : ExternalOptimizer α) :
    Change α (SolveReport α) := do
  let a ← read fun d => Allocation.ofRoot d root
  let ⟨problem, infeasible⟩ ← read fun d => compile d a config
  if infeasible.isEmpty then
    let answer := optimizer problem
    if answer.success ∧ answer.x.size = problem.numVars then
      let c := correct problem answer.x config.correction
      writeBoxesInPlace a c.values
      propagateInPlace root
      return ⟨true, "", some c.strategy, c.warning, area problem.boxes c.values, a.numVars⟩
    else return .failed answer.message a.numVars
  else return .failed (SolveReport.neverHold infeasible) a.numVars

/-! ## What they leave -/

theorem outcome_writeBoxesInPlace (a : Allocation) (x : Array α) (d : Design α) :
    (writeBoxesInPlace a x).outcome d = (.ok (), d.writeBoxes a x) := by
  refine outcome_forM (fun n d => ?_) a.nodes d
  cases a.boxOf? n x <;> rfl

theorem outcome_refitInPlace (c : CellId) (d : Design α) : (refitInPlace c).outcome d = (.ok (), d.refit c) := by
  rw [refitInPlace, outcome_get_bind, refit]
  cases d.cell? c with
  | none => rfl
  | some cell => exact outcome_bind_of_ok (outcome_forM (fun _ _ => rfl) cell.instances d)

theorem outcome_propagateInPlace (root : CellId) (d : Design α) :
    (propagateInPlace root).outcome d = (.ok (), d.propagate root) :=
  outcome_forM outcome_refitInPlace (d.activePostorder root) d

/-- In place a solve leaves the design that it returns, and the design that it was given if it stops with an error. -/
theorem does_solveInPlace (d : Design α) (root : CellId) (config : SolveConfig α) (optimizer : ExternalOptimizer α) :
    (solveInPlace root config optimizer).Does d (d.solveWith root config optimizer) := by
  refine does_read_bind fun a => does_read_bind fun ⟨problem, infeasible⟩ => does_ite Iff.rfl ?_ rfl
  refine does_ite Iff.rfl ?_ rfl
  have hwrite := outcome_writeBoxesInPlace a (correct problem (optimizer problem).x config.correction).values d
  have hfit := outcome_propagateInPlace root
    (d.writeBoxes a (correct problem (optimizer problem).x config.correction).values)
  exact (outcome_bind_of_ok hwrite).trans (outcome_bind_of_ok hfit)

end RectLayout.Design
