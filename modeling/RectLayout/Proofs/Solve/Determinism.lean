import Mathlib.Data.List.Basic
import RectLayout.Design.Freeze
import RectLayout.Proofs.Operation

/-!
# A solve does not read what it overwrites

Designs that differ in nothing but stored boxes of the nodes of an allocation compile to one problem
(`AgreeOutside.compile_eq`): operands of listed nodes are unknowns, and the content of a template that is not listed
is a frozen box, which is no stored box of a listed node. As writing also makes such designs equal, a solve has the
same outcome on both (`AgreeOutside.sameOutcome`). So a solve can be repeated, and freezing and unfreezing the root
before it is of no account (`solve_ignores_boxes`).
-/

namespace RectLayout

variable {α : Type} {d e : Design α} {root : CellId} {a : Allocation}

/-! ## Allocation and constraints -/

namespace Design.AgreeOutside

theorem ofRoot_eq {S : Set Node} (h : AgreeOutside S d e) (ha : Allocation.ofRoot d root = .ok a) :
    Allocation.ofRoot e root = .ok a := by
  have hroot := Allocation.isActive_of_ofRoot ha
  rw [Allocation.ofRoot_eq (h.isActive root ▸ hroot), Allocation.eq_of_ofRoot ha, ← h.activeCells]
  simp only [h.children]

theorem operands_eq (h : AgreeOutside {n | n ∈ a.nodes} d e) (n : Node) : a.operands? d n = a.operands? e n := by
  unfold Allocation.operands?
  cases hn : a.base? n with
  | some base => rfl
  | none => rw [h.box (Allocation.base?_eq_none_iff.mp hn)]

theorem activeConstraints_eq (h : AgreeOutside {n | n ∈ a.nodes} d e) :
    Compiled.activeConstraints d a = Compiled.activeConstraints e a := by
  refine List.flatMap_congr fun c _ => ?_
  rcases h.cell_cases c with ⟨hd, he⟩ | ⟨x, b, hd, he⟩ <;> simp [hd, he]

end Design.AgreeOutside

variable [Scalar α]

/-! ## Compilation -/

/-- The content of a cell that is not active is what it was frozen with, if it exists. -/
theorem Design.contentBox?_of_not_active {c : CellId} (h : ¬ d.isActive c) :
    d.contentBox? c = (d.cell? c).bind Cell.frozen := by
  cases hc : d.cell? c with
  | none => simp [contentBox?, hc]
  | some cell =>
    cases hf : cell.frozen with
    | none => simp [isActive, hc, Cell.isFrozen, hf] at h
    | some box => simp [contentBox?, hc, hf]

namespace Design.AgreeOutside

open Compiled

theorem validity_eq (h : AgreeOutside {n | n ∈ a.nodes} d e) (config : SolveConfig α) :
    validity d a config = validity e a config := by
  simp only [validity, h.name]

theorem defaultSizes_eq (h : AgreeOutside {n | n ∈ a.nodes} d e) (config : SolveConfig α) (mentioned : List Node) :
    defaultSizes d a config mentioned = defaultSizes e a config mentioned := by
  simp only [defaultSizes, h.name]

theorem containment_eq (h : AgreeOutside {n | n ∈ a.nodes} d e) (c : CellId) :
    containment d a c = containment e a c := by
  simp only [containment, h.operands_eq, h.children, h.name]

theorem constraintRows_eq (h : AgreeOutside {n | n ∈ a.nodes} d e) (cellName : String) (k : Constraint) :
    constraintRows d a cellName k = constraintRows e a cellName k := by
  have hr : resolve d a k.clause = resolve e a k.clause := funext fun n => by
    simp only [resolve, h.operands_eq, h.name]
  simp only [constraintRows, hr, h.name]

/-- The template of a listed instance that is not listed itself is frozen, and so has the same content. -/
theorem templateOperands_eq (h : AgreeOutside {n | n ∈ a.nodes} d e) (ha : Allocation.ofRoot d root = .ok a)
    {i : InstanceId} (hi : .inst i ∈ a.nodes) {inst : Instance α} (hinst : d.instance? i = some inst) :
    templateOperands? d a inst.template = templateOperands? e a inst.template := by
  unfold templateOperands?
  cases hb : a.base? (.cell inst.template) with
  | some base => rfl
  | none =>
    have hinactive : ¬ d.isActive inst.template := fun hactive =>
      Allocation.base?_eq_none_iff.mp hb (Allocation.template_mem_nodes ha hi hinst hactive)
    have hcontent : d.contentBox? inst.template = e.contentBox? inst.template := by
      rw [contentBox?_of_not_active hinactive, contentBox?_of_not_active (h.isActive _ ▸ hinactive), h.frozen]
    rw [hcontent]

theorem instanceSizes_eq (h : AgreeOutside {n | n ∈ a.nodes} d e) (ha : Allocation.ofRoot d root = .ok a) :
    instanceSizes d a = instanceSizes e a := by
  refine List.flatMap_congr fun n hn => ?_
  cases n with
  | cell c => rfl
  | polygon p => rfl
  | inst i =>
    rcases h.instance_cases i with ⟨hd, he⟩ | ⟨x, b, hd, he⟩
    · simp [hd, he]
    · have ht := h.templateOperands_eq ha hn hd
      simp only [hd, he, h.operands_eq, h.name]
      cases a.operands? e (.inst i) with
      | none => rfl
      | some own => simp only [ht]

/-- Designs that differ in nothing but boxes of listed nodes compile to one problem, or fail with one error. -/
theorem compile_eq (h : AgreeOutside {n | n ∈ a.nodes} d e) (ha : Allocation.ofRoot d root = .ok a)
    (config : SolveConfig α) : compile d a config = compile e a config := by
  have hm : mentioned d a = mentioned e a := by simp only [mentioned, h.activeConstraints_eq]
  simp only [compile, rows, h.activeConstraints_eq, h.constraintRows_eq, h.validity_eq, h.defaultSizes_eq, hm,
    funext h.containment_eq, h.instanceSizes_eq ha]

/-- On designs that differ in nothing but boxes of nodes that it solves for, a solve gives the same; a failure leaves
each as it was. -/
theorem solveWith_eq (h : AgreeOutside {n | n ∈ a.nodes} d e) (ha : Allocation.ofRoot d root = .ok a)
    (config : SolveConfig α) (optimizer : ExternalOptimizer α) : e.solveWith root config optimizer =
      (d.solveWith root config optimizer).map fun (d', r) => (if r.success then d' else e, r) := by
  unfold solveWith
  rw [ha, h.ofRoot_eq ha]
  simp only [bind, Except.bind, pure, Except.pure, ← h.compile_eq ha]
  cases hc : compile d a config with
  | error err => rfl
  | ok c =>
    by_cases hinf : c.infeasible.isEmpty
    · by_cases hfound : (optimizer c.problem).success ∧ (optimizer c.problem).x.size = c.problem.numVars
      · simp [hinf, hfound, Except.map, h.writeBoxes_eq]
      · simp [hinf, hfound, Except.map, SolveReport.failed]
    · simp [hinf, Except.map, SolveReport.failed]

end Design.AgreeOutside

/-! ## The same outcome -/

namespace Design

/-- Two solves fail with one error, or return one report, and with success also one design. -/
def SameOutcome : (s t : Except LayoutError (Design α × SolveReport α)) → Prop
  | .error x, .error y => x = y
  | .ok (d, r), .ok (e, r') => r = r' ∧ (r.success → d = e)
  | _, _ => False

/-- A solve has the same outcome on designs that differ in nothing but boxes of nodes that it solves for. -/
theorem AgreeOutside.sameOutcome (h : AgreeOutside {n | n ∈ a.nodes} d e) (ha : Allocation.ofRoot d root = .ok a)
    (config : SolveConfig α) (optimizer : ExternalOptimizer α) :
    SameOutcome (d.solveWith root config optimizer) (e.solveWith root config optimizer) := by
  rw [h.solveWith_eq ha]
  cases d.solveWith root config optimizer with
  | error x => rfl
  | ok p =>
    obtain ⟨d', r⟩ := p
    refine ⟨rfl, fun hr => ?_⟩
    rw [if_pos hr]

/-- Freezing an active cell and unfreezing it changes at most its own box. -/
theorem agreeOutside_freeze_unfreeze {d₁ : Design α} {b : Box α} (hroot : d.isActive root)
    (h : d.freeze root = .ok (d₁, b)) : ∃ d₂, d₁.unfreeze root = .ok d₂ ∧ AgreeOutside {.cell root} d d₂ := by
  obtain ⟨cell, hcell, hfrozen⟩ := isActive_iff.mp hroot
  obtain ⟨cell', hcell', ⟨hfrozen', -⟩ | ⟨-, -, -, rfl⟩⟩ := freeze_ok h
  · rw [hcell] at hcell'
    rw [← Option.some.inj hcell', hfrozen] at hfrozen'
    cases hfrozen'
  · refine ⟨_, by simp [unfreeze, getCell, cell?_modifyCell, hcell, bind, Except.bind, pure, Except.pure]; rfl, ?_⟩
    refine ⟨fun k => ?_, fun _ => rfl, fun _ => rfl, fun n hn => ?_⟩
    · by_cases hk : root = k
      · subst hk
        simp [cell?_modifyCell, hcell, Cell.unboxed, hfrozen]
      · simp [cell?_modifyCell, hk]
    · cases n with
      | cell k =>
        have hk : root ≠ k := fun hk => hn (by rw [hk]; exact Set.mem_singleton _)
        simp [stored?, cell?_modifyCell, hk]
      | polygon p => rfl
      | inst i => rfl

/-- A solve depends on no box that it is about to overwrite. On designs that differ in nothing else it has the same
outcome; solving the result again gives the same report and changes nothing; and the outcome is the same after the root
was frozen and unfrozen. -/
theorem solve_ignores_boxes (ha : Allocation.ofRoot d root = .ok a) (config : SolveConfig α)
    (optimizer : ExternalOptimizer α) :
    (∀ e, AgreeOutside {n | n ∈ a.nodes} d e →
      SameOutcome (d.solveWith root config optimizer) (e.solveWith root config optimizer)) ∧
    (∀ d' r, d.solveWith root config optimizer = .ok (d', r) → d'.solveWith root config optimizer = .ok (d', r)) ∧
    (∀ d₁ b, d.freeze root = .ok (d₁, b) → ∃ d₂, d₁.unfreeze root = .ok d₂ ∧
      SameOutcome (d.solveWith root config optimizer) (d₂.solveWith root config optimizer)) := by
  have hsolved : d.solved root ⊆ {n | n ∈ a.nodes} := fun n hn => (Allocation.mem_nodes_iff ha).mpr hn
  refine ⟨fun e h => h.sameOutcome ha config optimizer, fun d' r h => ?_, fun d₁ b h => ?_⟩
  · have hd' := (agreeOutside_solveWith h).mono hsolved
    rw [hd'.solveWith_eq ha, h]
    simp [Except.map]
  · have hroot := Allocation.isActive_of_ofRoot ha
    obtain ⟨d₂, hd₂, h₂⟩ := agreeOutside_freeze_unfreeze hroot h
    refine ⟨d₂, hd₂, (h₂.mono ?_).sameOutcome ha config optimizer⟩
    rintro n rfl
    exact hsolved (cell_mem_solved_iff.mpr (active_self hroot))

theorem solve_ignores_boxes_viaPair : Allocation.ofRoot (empty.run viaPair) ⟨1⟩ =
      .ok ⟨[.cell ⟨1⟩, .polygon ⟨1⟩, .inst ⟨0⟩, .inst ⟨1⟩], [⟨1⟩]⟩ ∧
    SameOutcome ((empty.run viaPair).solveWith ⟨1⟩ .standard fun p => .solved p.initial)
      (((empty.run viaPair).writeBox (.polygon ⟨1⟩) none).solveWith ⟨1⟩ .standard fun p => .solved p.initial) ∧
    ∃ d₁ d₂, (empty.run viaPair).freeze ⟨1⟩ = .ok (d₁, ⟨0, 0, 8, 4⟩) ∧ d₁.unfreeze ⟨1⟩ = .ok d₂ ∧
      SameOutcome ((empty.run viaPair).solveWith ⟨1⟩ .standard fun p => .solved p.initial)
        (d₂.solveWith ⟨1⟩ .standard fun p => .solved p.initial) := by
  have ha : Allocation.ofRoot (empty.run viaPair) ⟨1⟩ =
      .ok ⟨[.cell ⟨1⟩, .polygon ⟨1⟩, .inst ⟨0⟩, .inst ⟨1⟩], [⟨1⟩]⟩ := by decide +kernel
  obtain ⟨hboxes, -, hfreeze⟩ := solve_ignores_boxes ha .standard fun p => .solved p.initial
  refine ⟨ha, hboxes _ (agreeOutside_writeBox ?_ _ _), ?_⟩
  · show Node.polygon ⟨1⟩ ∈ [Node.cell ⟨1⟩, .polygon ⟨1⟩, .inst ⟨0⟩, .inst ⟨1⟩]
    simp
  · have hfrozen : ((empty.run viaPair).freeze ⟨1⟩).map Prod.snd = .ok ⟨0, 0, 8, 4⟩ := by decide +kernel
    cases h : (empty.run viaPair).freeze ⟨1⟩ with
    | error e => rw [h] at hfrozen; cases hfrozen
    | ok p =>
      obtain ⟨d₁, b⟩ := p
      obtain ⟨d₂, hd₂, hsame⟩ := hfreeze d₁ b h
      rw [h] at hfrozen
      cases hfrozen
      exact ⟨d₁, d₂, rfl, hd₂, hsame⟩

end Design

end RectLayout
