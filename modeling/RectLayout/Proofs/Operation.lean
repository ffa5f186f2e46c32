import RectLayout.Design.Freeze
import RectLayout.Proofs.Design.WellFormed
import RectLayout.Proofs.Solve.Run

/-!
# Runs of operations

A design is built and changed by operations: edits, freezing and unfreezing, fitting, and solves with any optimizer.
An operation that fails leaves the design as it was (`Design.after`), and a run is any list of operations. What one
operation can do is said once (`apply_ok`); a property that each operation keeps holds after every run
(`run_of_after`). Every design that a run reaches from the empty one is well-formed (`Reachable.wellFormed`).
-/

namespace RectLayout

/-- The operations on a design. -/
inductive Operation (α : Type) where
  | addCell (name : String)
  | addPolygon (c : CellId) (name layer : String)
  | addInstance (c : CellId) (name : String) (template : CellId)
  | constrain (c : CellId) (subject : Node) (clause : String) (object : Option Node)
  | setBox (n : Node) (box : Box α)
  | freeze (c : CellId)
  | unfreeze (c : CellId)
  | propagate (root : CellId)
  | solve (root : CellId) (config : SolveConfig α) (optimizer : ExternalOptimizer α)

namespace Design

variable {α : Type} [Scalar α] {d d' : Design α} {op : Operation α}

/-- The design that an operation returns. -/
def apply (d : Design α) : Operation α → Except LayoutError (Design α)
  | .addCell name => .ok (d.addCell name).1
  | .addPolygon c name layer => (d.addPolygon c name layer).map Prod.fst
  | .addInstance c name template => (d.addInstance c name template).map Prod.fst
  | .constrain c subject clause object => d.constrain c subject clause object
  | .setBox n box => d.setBox n box
  | .freeze c => (d.freeze c).map Prod.fst
  | .unfreeze c => d.unfreeze c
  | .propagate root => .ok (d.propagate root)
  | .solve root config optimizer => (d.solveWith root config optimizer).map Prod.fst

/-- The design after an operation, the old one if it fails. -/
def after (d : Design α) (op : Operation α) : Design α :=
  match d.apply op with
  | .ok d' => d'
  | .error _ => d

/-- The design after a list of operations. -/
def run (d : Design α) (ops : List (Operation α)) : Design α := ops.foldl after d

/-- A run of operations leads from the empty design to `d`. -/
def Reachable (d : Design α) : Prop := ∃ ops : List (Operation α), d = empty.run ops

/-! ## One operation -/

theorem exists_of_map_fst {ε β γ : Type} {x : Except ε (β × γ)} {y : β} (h : x.map Prod.fst = .ok y) :
    ∃ z, x = .ok (y, z) := by
  cases x with
  | error e => cases h
  | ok p => exact ⟨p.2, by rw [← Except.ok.inj h]⟩

/-- An operation that succeeds is one of these. -/
theorem apply_ok (h : d.apply op = .ok d') : match op with
    | .addCell name => d' = (d.addCell name).1
    | .addPolygon c name layer => ∃ p, d.addPolygon c name layer = .ok (d', p)
    | .addInstance c name template => ∃ i, d.addInstance c name template = .ok (d', i)
    | .constrain c subject clause object => d.constrain c subject clause object = .ok d'
    | .setBox n box => d.setBox n box = .ok d'
    | .freeze c => ∃ b, d.freeze c = .ok (d', b)
    | .unfreeze c => d.unfreeze c = .ok d'
    | .propagate root => d' = d.propagate root
    | .solve root config optimizer => ∃ r, d.solveWith root config optimizer = .ok (d', r) := by
  cases op with
  | addCell name => exact (Except.ok.inj h).symm
  | propagate root => exact (Except.ok.inj h).symm
  | constrain c subject clause object => exact h
  | setBox n box => exact h
  | unfreeze c => exact h
  | addPolygon c name layer => exact exists_of_map_fst h
  | addInstance c name template => exact exists_of_map_fst h
  | freeze c => exact exists_of_map_fst h
  | solve root config optimizer => exact exists_of_map_fst h

/-- An operation succeeds or changes nothing. -/
theorem after_cases (d : Design α) (op : Operation α) : d.after op = d ∨ d.apply op = .ok (d.after op) := by
  unfold after
  split
  · rename_i d' h
    exact .inr h
  · exact .inl rfl

/-- What every operation keeps holds after every run. -/
theorem run_of_after {P : Design α → Prop} {ops : List (Operation α)}
    (hafter : ∀ d, ∀ op ∈ ops, P d → P (d.after op)) (hd : P d) : P (d.run ops) := by
  induction ops generalizing d with
  | nil => exact hd
  | cons op ops ih =>
    exact ih (fun e o ho => hafter e o (List.mem_cons_of_mem op ho)) (hafter d op List.mem_cons_self hd)

/-! ## Well-formed designs -/

theorem WellFormed.after (h : d.WellFormed) (op : Operation α) : (d.after op).WellFormed := by
  rcases after_cases d op with hsame | happly
  · rw [hsame]; exact h
  generalize d.after op = d' at happly ⊢
  have hop := apply_ok happly
  cases op with
  | addCell name => rw [hop]; exact wellFormed_addCell h name
  | addPolygon c name layer =>
    obtain ⟨p, hp⟩ := hop
    exact wellFormed_addPolygon h hp
  | addInstance c name template =>
    obtain ⟨i, hi⟩ := hop
    exact wellFormed_addInstance h hi
  | constrain c subject clause object => exact wellFormed_constrain h hop
  | setBox n box =>
    obtain ⟨_, _, -, -, -, rfl⟩ := setBox_ok hop
    exact (agreeOutside_writeBox (Set.mem_singleton n) d _).sameStructure.wellFormed h
  | freeze c =>
    obtain ⟨b, hb⟩ := hop
    exact (sameStructure_freeze hb).wellFormed h
  | unfreeze c => exact (sameStructure_unfreeze hop).wellFormed h
  | propagate root =>
    rw [hop]
    exact (agreeOutside_propagate d root).sameStructure.wellFormed h
  | solve root config optimizer =>
    obtain ⟨r, hr⟩ := hop
    exact (agreeOutside_solveWith hr).sameStructure.wellFormed h

theorem WellFormed.run (h : d.WellFormed) (ops : List (Operation α)) : (d.run ops).WellFormed :=
  run_of_after (fun _ op _ he => he.after op) h

/-- Every reachable design is well-formed. -/
theorem Reachable.wellFormed (h : d.Reachable) : d.WellFormed := by
  obtain ⟨ops, rfl⟩ := h
  exact wellFormed_empty.run ops

end Design

/-! ## A small design -/

/-- A frozen cell `via` with one polygon, and a cell `pair` that draws it twice beside a polygon. -/
def viaPair : List (Operation Rat) :=
  [.addCell "via", .addPolygon ⟨0⟩ "cut" "via1", .setBox (.polygon ⟨0⟩) ⟨0, 0, 2, 2⟩, .freeze ⟨0⟩,
    .addCell "pair", .addInstance ⟨1⟩ "left" ⟨0⟩, .addInstance ⟨1⟩ "right" ⟨0⟩, .addPolygon ⟨1⟩ "strap" "met1",
    .constrain ⟨1⟩ (.inst ⟨0⟩) "x2 + 1 <= ox1" (some (.inst ⟨1⟩)),
    .constrain ⟨1⟩ (.polygon ⟨1⟩) "width >= 8" none, .setBox (.polygon ⟨1⟩) ⟨0, 3, 8, 4⟩,
    .setBox (.inst ⟨0⟩) ⟨0, 0, 2, 2⟩, .setBox (.inst ⟨1⟩) ⟨5, 0, 7, 2⟩]

end RectLayout
