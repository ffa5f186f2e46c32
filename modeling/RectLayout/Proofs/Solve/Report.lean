import RectLayout.Proofs.Solve.Compile
import RectLayout.Proofs.Solve.Correction

/-!
# What a successful solve says of clauses

The boxes that a successful solve places are those of the corrected point (`box_writeBoxes`), and of these every row
of the problem holds or is reported (`SolvedBy.holds_or_reported`). Fitting comes after that: it moves upper right
corners of instances and boxes of cells. So a clause that is not reported holds of the stored boxes, unless it speaks
of a coordinate that fitting changed, and then it holds of the placed ones (`reported_or_holds`). It can fail of the
stored boxes (`not_reported_or_holds_stored`).
-/

namespace RectLayout.Design

variable {d d' : Design Rat} {root : CellId} {a : Allocation} {config : SolveConfig Rat}
  {optimizer : ExternalOptimizer Rat} {p : Problem Rat} {x : Array Rat} {r : SolveReport Rat}

/-! ## Placed boxes -/

/-- Writing a point makes the boxes of all nodes the ones that the point gives to them. -/
theorem box_writeBoxes (hd : d.WellFormed) (ha : Allocation.ofRoot d root = .ok a) (x : Array Rat) (n : Node) :
    (d.writeBoxes a x).box? n = a.read d x n := by
  have hagree := agreeOutside_writeBoxes d a x
  cases hb : a.base? n with
  | none => rw [← hagree.box (Allocation.base?_eq_none_iff.mp hb), Allocation.read, hb]
  | some base =>
    have hn : n ∈ a.nodes := Allocation.isSome_base?_iff.mp (by rw [hb]; rfl)
    rw [box_writeBoxes_of_mem hd ha x hn, Allocation.boxOf?, Allocation.read, hb]
    rfl

/-- Every row of a solved problem holds at the corrected point, or it is reported. -/
theorem SolvedBy.holds_or_reported (h : SolvedBy d root config optimizer a p x d' r)
    (ht : 0 ≤ config.correction.tolerance) {all : List (RowKind × Row Rat)}
    (hofRows : Compiled.ofRows a config all = ⟨p, []⟩) {row : RowKind × Row Rat} (hrow : row ∈ all) :
    RowHolds config.correction.tolerance (correct p x config.correction).values row ∨
      ∃ w, r.warning = some w ∧ row.2.label ∈ w.violated := by
  by_cases hconstant : row.2.isConstant
  · have hinfeasible : (Compiled.ofRows a config all).infeasible = [] := by rw [hofRows]
    exact .inl (Compiled.infeasible_ofRows_iff all |>.mp hinfeasible row hrow hconstant)
  · have hp : row ∈ p.rows := by
      have hmem : row ∈ (Compiled.ofRows a config all).problem.rows :=
        Compiled.mem_rows_ofRows.mpr ⟨hrow, hconstant⟩
      rwa [hofRows] at hmem
    by_cases hv : row.1.violation (row.2.eval (correct p x config.correction).values) ≤ config.correction.tolerance
    · exact .inl ((RowKind.violation_le_iff ht _ _).mp hv)
    · have hreport := reported_of_violated hp (not_le.mp hv)
      rw [h.report]
      exact .inr hreport

/-- Every clause of an active constraint has a row with its label, which says of a point what the clause says of the
boxes there. -/
theorem exists_row_of_clause (ha : Allocation.ofRoot d root = .ok a) {all : List (RowKind × Row Rat)}
    (hall : Compiled.rows d a config = .ok all) {c : CellId} {cell : Cell Rat} (hc : d.Active root c)
    (hcell : d.cell? c = some cell) {k : Constraint} (hk : k ∈ cell.constraints) :
    ∃ clauses, Clause.parseAll k.clause k.object.isSome = .ok clauses ∧ ∀ clause ∈ clauses, ∃ row ∈ all,
      row.2.label = k.label d cell.name clause ∧
        ∀ t x, RowHolds t x row ↔ clause.HoldsWithin t (k.boxes (a.read d x)) := by
  obtain ⟨lists, hlists, -⟩ := bind_eq_ok_iff.mp hall
  have hmem := (Compiled.mem_activeConstraints_iff ha).mpr ⟨c, cell, hc, hcell, hk, rfl⟩
  obtain ⟨rows, -, hrows⟩ := exists_mem_of_mapM hlists hmem
  obtain ⟨clauses, row, hclauses, rfl, hrow⟩ := Compiled.constraintRows_spec hrows
  refine ⟨clauses, hclauses, fun clause hclause => ⟨row clause, ?_, hrow clause hclause⟩⟩
  exact (Compiled.mem_rows_iff hall).mpr (.inr ⟨_, hmem, _, hrows, List.mem_map_of_mem hclause⟩)

/-! ## Stored boxes -/

/-- A coordinate of the box of a node. -/
def coordinate? (d : Design Rat) (n : Node) (axis : Axis) (corner : Corner) : Option Rat :=
  (d.box? n).map (Box.get · axis corner)

/-- Fitting changed a coordinate: it belongs to a cell that was solved for and is not empty, or to the upper right
corner of an instance in such a cell, and its stored value is not the placed one. -/
structure Refitted (d : Design Rat) (root : CellId) (placed stored : Design Rat) (n : Node) (c : Coord) : Prop where
  fitted : n ∈ d.fitted root
  corner : ∀ i, n = .inst i → c.corner = .max
  changed : stored.coordinate? n c.axis c.corner ≠ placed.coordinate? n c.axis c.corner

/-- What fitting changes it was allowed to change. -/
theorem refitted_of_ne {placed : Design Rat} {S : Set Node} (hagree : AgreeOutside S d placed) {n : Node} {c : Coord}
    (hne : (placed.propagate root).coordinate? n c.axis c.corner ≠ placed.coordinate? n c.axis c.corner) :
    Refitted d root placed (placed.propagate root) n c := by
  have hprop := agreeOutside_propagate placed root
  refine ⟨?_, ?_, hne⟩
  · rw [hagree.fitted root]
    by_contra hn
    exact hne (by rw [coordinate?, coordinate?, hprop.box hn])
  · rintro i rfl
    by_contra hmax
    have hmin : c.corner = .min := by cases h : c.corner <;> simp_all
    have hcorner := storedCorner_propagate placed root i
    apply hne
    have hget : ∀ e : Design Rat, e.coordinate? (.inst i) c.axis .min = (e.storedCorner? (.inst i)).map
        fun q => if c.axis = .x then q.1 else q.2 := by
      intro e
      rw [coordinate?, storedCorner?, Option.map_map]
      cases c.axis <;> rfl
    rw [hmin, hget, hget, hcorner]

/-- After a successful solve every clause of an active constraint is reported, or holds of the stored boxes within the
tolerance, or holds of the placed boxes and speaks of a coordinate that fitting changed. -/
theorem reported_or_holds (hd : d.Reachable) (ht : 0 ≤ config.correction.tolerance)
    (h : d.solveWith root config optimizer = .ok (d', r)) (hr : r.success) :
    ∃ a p x, SolvedBy d root config optimizer a p x d' r ∧
      ∀ c cell, d.Active root c → d.cell? c = some cell → ∀ k ∈ cell.constraints,
        ∃ clauses, Clause.parseAll k.clause k.object.isSome = .ok clauses ∧ ∀ clause ∈ clauses,
          (∃ w, r.warning = some w ∧ k.label d cell.name clause ∈ w.violated) ∨
          clause.HoldsWithin config.correction.tolerance (k.boxes d'.box?) ∨
          (clause.HoldsWithin config.correction.tolerance
              (k.boxes (d.writeBoxes a (correct p x config.correction).values).box?) ∧
            ∃ coord n, clause.Names coord ∧ k.node? coord.role = some n ∧
              Refitted d root (d.writeBoxes a (correct p x config.correction).values) d' n coord) := by
  have hwf := hd.wellFormed
  obtain ⟨a, p, x, hrun⟩ := solvedBy_of_success h hr
  refine ⟨a, p, x, hrun, fun c cell hc hcell k hk => ?_⟩
  obtain ⟨all, hall, hofRows⟩ := Compiled.exists_rows_of_compile hrun.compiled
  obtain ⟨clauses, hclauses, hrow⟩ := exists_row_of_clause hrun.allocated hall hc hcell hk
  refine ⟨clauses, hclauses, fun clause hclause => ?_⟩
  obtain ⟨row, hmem, hlabel, hiff⟩ := hrow clause hclause
  rcases hrun.holds_or_reported ht hofRows hmem with hholds | hreported
  · refine .inr ?_
    have hread : (d.writeBoxes a (correct p x config.correction).values).box? =
        a.read d (correct p x config.correction).values := funext (box_writeBoxes hwf hrun.allocated _)
    have hplaced : clause.HoldsWithin config.correction.tolerance
        (k.boxes (d.writeBoxes a (correct p x config.correction).values).box?) := by
      rw [hread]
      exact (hiff _ _).mp hholds
    by_cases hstored : clause.HoldsWithin config.correction.tolerance (k.boxes d'.box?)
    · exact .inl hstored
    · -- some coordinate of the clause is not what it was placed at, for else the clause would still hold
      obtain ⟨coord, hnames, hne⟩ := hplaced.exists_ne hstored
      refine .inr ⟨hplaced, coord, ?_⟩
      cases hn : k.node? coord.role with
      | none => simp [Constraint.boxes, hn] at hne
      | some n =>
        simp only [Constraint.boxes, hn, Option.bind_some] at hne
        refine ⟨n, hnames, rfl, ?_⟩
        rw [hrun.design] at hne ⊢
        exact refitted_of_ne (agreeOutside_writeBoxes d a _) (Ne.symm hne)
  · rw [hlabel] at hreported
    exact .inl hreported

/-! ## A clause that fitting breaks -/

/-- A cell whose own box is constrained, with one polygon. -/
def widePad : List (Operation Rat) :=
  [.addCell "top", .addPolygon ⟨0⟩ "A" "met1", .constrain ⟨0⟩ (.cell ⟨0⟩) "x2=5" none]

/-- The solve places the cell's box from 0 to 5, as its clause says, and fits it to the polygon. -/
theorem solveWith_widePad : (empty.run widePad).solveWith ⟨0⟩ .standard (fun _ => .solved #[0, 0, 5, 1, 0, 0, 1, 1]) =
    .ok (⟨#[⟨"top", [⟨0⟩], [], [⟨.cell ⟨0⟩, "x2=5", none⟩], some ⟨0, 0, 1, 1⟩, none⟩],
        #[⟨"A", "met1", some ⟨0, 0, 1, 1⟩, ⟨0⟩⟩], #[]⟩,
      ⟨true, "", some .round, none, 1, 8⟩) := by
  decide +kernel

theorem parseAll_widePad : Clause.parseAll "x2=5" false =
    .ok [(⟨"x2=5", .equal, ⟨[⟨1, some ⟨.subject, .x, .max⟩⟩]⟩, ⟨[⟨5, none⟩]⟩⟩ : Clause Rat)] := by
  decide +kernel

theorem reported_or_holds_widePad : 0 ≤ (SolveConfig.standard : SolveConfig Rat).correction.tolerance ∧
    ∃ placed stored r, (empty.run widePad).solveWith ⟨0⟩ .standard (fun _ => .solved #[0, 0, 5, 1, 0, 0, 1, 1]) =
        .ok (stored, r) ∧ r.success ∧
      Clause.HoldsWithin (SolveConfig.standard : SolveConfig Rat).correction.tolerance
        (Constraint.boxes placed.box? ⟨.cell ⟨0⟩, "x2=5", none⟩)
        ⟨"x2=5", .equal, ⟨[⟨1, some ⟨.subject, .x, .max⟩⟩]⟩, ⟨[⟨5, none⟩]⟩⟩ ∧
      Refitted (empty.run widePad) ⟨0⟩ placed stored (.cell ⟨0⟩) ⟨.subject, .x, .max⟩ := by
  have ht : 0 ≤ (SolveConfig.standard : SolveConfig Rat).correction.tolerance := by decide +kernel
  have hactive : (empty.run widePad).Active ⟨0⟩ ⟨0⟩ := active_self (by decide +kernel)
  have hcell : (empty.run widePad).cell? ⟨0⟩ =
      some ⟨"top", [⟨0⟩], [], [⟨.cell ⟨0⟩, "x2=5", none⟩], none, none⟩ := by decide +kernel
  obtain ⟨a, p, x, -, hall⟩ := reported_or_holds ⟨widePad, rfl⟩ ht solveWith_widePad rfl
  obtain ⟨clauses, hclauses, hclause⟩ := hall ⟨0⟩ _ hactive hcell _ List.mem_cons_self
  obtain rfl := Except.ok.inj (parseAll_widePad.symm.trans hclauses)
  rcases hclause _ List.mem_cons_self with ⟨w, hw, -⟩ | hholds | ⟨hplaced, coord, n, hnames, hn, hfit⟩
  · cases hw
  · exfalso
    revert hholds
    decide +kernel
  · have hcoord : coord = ⟨.subject, .x, .max⟩ := by
      obtain ⟨u, hu, hc⟩ := hnames
      rcases hu with hu | hu <;> rw [List.mem_singleton.mp hu] at hc <;> cases hc
      rfl
    subst hcoord
    cases hn
    exact ⟨ht, _, _, _, solveWith_widePad, rfl, hplaced, hfit⟩

/-- Not every clause that fails of the stored boxes is reported. -/
theorem not_reported_or_holds_stored : ¬ ∀ (d d' : Design Rat) (root : CellId) (config : SolveConfig Rat)
    (optimizer : ExternalOptimizer Rat) (r : SolveReport Rat), d.Reachable → 0 ≤ config.correction.tolerance →
    d.solveWith root config optimizer = .ok (d', r) → r.success →
    ∀ c cell, d.Active root c → d.cell? c = some cell → ∀ k ∈ cell.constraints,
      ∀ clauses, Clause.parseAll k.clause k.object.isSome = .ok clauses → ∀ clause ∈ clauses,
        clause.HoldsWithin config.correction.tolerance (k.boxes d'.box?) ∨
          ∃ w, r.warning = some w ∧ k.label d cell.name clause ∈ w.violated := by
  intro h
  have hactive : (empty.run widePad).Active ⟨0⟩ ⟨0⟩ := active_self (by decide +kernel)
  have hcell : (empty.run widePad).cell? ⟨0⟩ =
      some ⟨"top", [⟨0⟩], [], [⟨.cell ⟨0⟩, "x2=5", none⟩], none, none⟩ := by decide +kernel
  have hclause := h _ _ ⟨0⟩ .standard _ _ ⟨widePad, rfl⟩ (by decide +kernel) solveWith_widePad rfl ⟨0⟩ _ hactive hcell
    _ List.mem_cons_self _ parseAll_widePad _ List.mem_cons_self
  rcases hclause with hholds | ⟨w, hw, -⟩
  · -- the right edge is stored at 1
    revert hholds
    decide +kernel
  · cases hw

end RectLayout.Design
