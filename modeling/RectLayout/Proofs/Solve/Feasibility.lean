import RectLayout.Proofs.Solve.Passes
import RectLayout.Proofs.LinearProgram.Solution
import RectLayout.Proofs.Operation
import RectLayout.Proofs.Solve.Unknowns
import RectLayout.Solve.LinearPass

/-!
# The default optimizer decides whether rows can be satisfied

In exact numbers nothing is lost on the way to the demands of a problem (`hasModestNumbers_eq_true`,
`exactProblem_eq_self`), and a point meets a demand exactly if it satisfies the row (`holds_demandOf_iff`). So demands
can be met together exactly if their rows have a common solution (`meetable_map_demandOf_iff`), and the first demand that
cannot is that of the row to blame (`isBlamedRow_of_isBlamed`). What `solveDemands` decides is what the passes start from
(`linearPass_cases`). Every pass has a point that satisfies all rows (`exactPoint_spec`), so no later pass makes a problem
fail that has a solution, and the message of a problem that has none is settled before the first (`minimize_decides`).
-/

namespace RectLayout

open LinearProgram

variable {n : Nat} {p : Problem Rat} {x : Array Rat} {y : Nat → Rat} {rows : List (RowKind × Row Rat)}

/-- Rows over `n` unknowns have a common solution. -/
def Solvable (n : Nat) (rows : List (RowKind × Row Rat)) : Prop :=
  ∃ x : Array Rat, x.size = n ∧ ∀ r ∈ rows, RowHolds 0 x r

/-! ## Demands of rows -/

/-- The demand that a row makes. -/
def demandOf (r : RowKind × Row Rat) : Demand := ⟨r.1, ⟨r.2.terms.toList, r.2.constant⟩⟩

theorem demands_eq (p : Problem Rat) : demands p = p.rows.map demandOf := rfl

theorem holds_demandOf_iff {r : RowKind × Row Rat} : (demandOf r).holds (valueAt x) ↔ RowHolds 0 x r := by
  have heval : (demandOf r).form.eval (valueAt x) = r.2.eval x := by
    rw [Form.eval_eq, Row.eval_eq_termsAt]
    rfl
  rw [Demand.holds_iff, heval, RowHolds]
  obtain ⟨kind, row⟩ := r
  cases kind with
  | equality =>
    simp only [RowKind.HoldsWithin, neg_zero]
    exact ⟨fun h => ⟨h.ge, h.le⟩, fun h => le_antisymm h.2 h.1⟩
  | inequality =>
    simp only [RowKind.HoldsWithin, neg_zero]
    exact Iff.rfl

theorem ascending_of_pairwise {lo : Nat} {terms : List (Nat × Rat)} (hlo : ∀ t ∈ terms, lo ≤ t.1)
    (hincreasing : terms.Pairwise fun t u => t.1 < u.1) (hnonzero : ∀ t ∈ terms, t.2 ≠ 0)
    (hrange : ∀ t ∈ terms, t.1 < n) : Ascending n lo terms := by
  induction terms generalizing lo with
  | nil => trivial
  | cons t terms ih =>
    rw [List.pairwise_cons] at hincreasing
    rw [List.forall_mem_cons] at hlo hnonzero hrange
    exact ⟨hlo.1, hrange.1, hnonzero.1, ih hincreasing.1 hincreasing.2 hnonzero.2 hrange.2⟩

/-- The demand of a row in normal form is in normal form. -/
theorem isNormal_demandOf {r : RowKind × Row Rat} (h : r.2.IsNormal n) : (demandOf r).form.IsNormal n :=
  ascending_of_pairwise (fun _ _ => Nat.zero_le _) h.increasing
    (fun t ht => by simpa using h.nonzero t (Array.mem_def.mpr ht)) fun t ht => h.inRange t (Array.mem_def.mpr ht)

/-! ## Points of functions -/

theorem valueAt_map_range (y : Nat → Rat) {i : Nat} (hi : i < n) : valueAt ((Array.range n).map y) i = y i := by
  rw [valueAt, Array.getD_eq_getD_getElem?, Array.getElem?_map, Array.getElem?_range, if_pos hi, Option.map_some,
    Option.getD_some]

/-- A demand of a row is met by the values of a function exactly if it is met by as many of them as there are
unknowns. -/
theorem holds_demandOf_range_iff {r : RowKind × Row Rat} (h : r.2.IsNormal n) :
    (demandOf r).holds y ↔ RowHolds 0 ((Array.range n).map y) r := by
  have heval : (demandOf r).form.eval y = (demandOf r).form.eval (valueAt ((Array.range n).map y)) :=
    Form.eval_congr fun t ht => (valueAt_map_range y (h.inRange t (Array.mem_def.mpr ht))).symm
  rw [← holds_demandOf_iff, Demand.holds_iff, Demand.holds_iff, heval]

/-- Demands of rows can be met together exactly if the rows have a common solution. -/
theorem meetable_map_demandOf_iff (h : ∀ r ∈ rows, r.2.IsNormal n) :
    Meetable (rows.map demandOf) ↔ Solvable n rows := by
  simp only [Meetable, List.forall_mem_map]
  constructor
  · rintro ⟨y, hy⟩
    exact ⟨(Array.range n).map y, by simp, fun r hr => (holds_demandOf_range_iff (h r hr)).mp (hy r hr)⟩
  · rintro ⟨x, -, hx⟩
    exact ⟨valueAt x, fun r hr => holds_demandOf_iff.mpr (hx r hr)⟩

theorem Solvable.of_append {before after : List (RowKind × Row Rat)} (h : Solvable n (before ++ after)) :
    Solvable n before := by
  obtain ⟨x, hsize, hx⟩ := h
  exact ⟨x, hsize, fun r hr => hx r (List.mem_append_left after hr)⟩

/-- A row is blamed: the rows before it have a common solution, and none satisfies it too. -/
def IsBlamedRow (n : Nat) (rows : List (RowKind × Row Rat)) (r : RowKind × Row Rat) : Prop :=
  ∃ before after, rows = before ++ r :: after ∧ Solvable n before ∧ ¬ Solvable n (before ++ [r])

/-- There is no more than one row to blame. -/
theorem IsBlamedRow.unique {r s : RowKind × Row Rat} (hr : IsBlamedRow n rows r) (hs : IsBlamedRow n rows s) :
    r = s := by
  obtain ⟨before, after, rfl, hbefore, hnot⟩ := hr
  obtain ⟨before', after', heq, hbefore', hnot'⟩ := hs
  -- of two rows, the rows before the later one cannot be satisfied
  rcases List.append_eq_append_iff.mp heq with ⟨between, rfl, htail⟩ | ⟨between, rfl, htail⟩
  · cases between with
    | nil => exact (List.cons.inj htail).1
    | cons q between =>
      obtain ⟨rfl, -⟩ := List.cons.inj htail
      rw [List.append_cons] at hbefore'
      exact absurd hbefore'.of_append hnot
  · cases between with
    | nil => exact (List.cons.inj htail).1.symm
    | cons q between =>
      obtain ⟨rfl, -⟩ := List.cons.inj htail
      rw [List.append_cons] at hbefore
      exact absurd hbefore.of_append hnot'

theorem IsBlamedRow.not_solvable {r : RowKind × Row Rat} (h : IsBlamedRow n rows r) : ¬ Solvable n rows := by
  obtain ⟨before, after, rfl, -, hnot⟩ := h
  rw [List.append_cons]
  exact fun hrows => hnot hrows.of_append

/-- The row whose demand is blamed is blamed. -/
theorem isBlamedRow_of_isBlamed (h : ∀ r ∈ rows, r.2.IsNormal n) {k : Nat} (hk : IsBlamed (rows.map demandOf) k) :
    ∃ r, rows[k]? = some r ∧ IsBlamedRow n rows r := by
  have hlt : k < rows.length := by simpa using hk.lt_length
  have hmeetable := hk.meetable
  have hnot := hk.not_meetable
  rw [← List.map_take, meetable_map_demandOf_iff fun r hr => h r (List.mem_of_mem_take hr)] at hmeetable hnot
  rw [List.take_add_one, List.getElem?_eq_getElem hlt] at hnot
  refine ⟨rows[k], List.getElem?_eq_getElem hlt, rows.take k, rows.drop (k + 1), ?_, hmeetable, hnot⟩
  rw [← List.drop_eq_getElem_cons hlt, List.take_append_drop]

/-! ## Exact numbers -/

/-- Exact numbers are not rounded, however large or small. -/
theorem hasModestNumbers_eq_true (p : Problem Rat) : hasModestNumbers p = true := by
  have hmodest : ∀ c : Rat, isModest c = true := fun c => by simp [isModest, Scalar.toRat?, Scalar.slack]
  have hfactor : ∀ c : Rat, isModestFactor c = true := fun c => by
    simp [isModestFactor, Scalar.toRat?, Scalar.slack, mul_self_nonneg]
  simp [hasModestNumbers, hmodest, hfactor]

theorem exactRow_eq_self {r : Row Rat} (h : ∀ t ∈ r.terms, t.2 ≠ 0) : exactRow r = r := by
  have hmap : (r.terms.map fun t => (t.1, exactNumber t.2)) = r.terms := Array.map_id' r.terms
  rw [exactRow, hmap, Array.filter_eq_self.mpr (by simpa using h)]
  rfl

/-- A problem in exact numbers is the problem itself. -/
theorem exactProblem_eq_self (h : ∀ r ∈ p.rows, r.2.IsNormal n) : exactProblem p = p := by
  have hrow : ∀ r ∈ p.rows, exactRow r.2 = r.2 := fun r hr =>
    exactRow_eq_self fun t ht => by simpa using (h r hr).nonzero t ht
  have hequalities : p.equalities.map exactRow = p.equalities :=
    (List.map_congr_left fun r hr => hrow (.equality, r) (List.mem_append_left _ (List.mem_map_of_mem hr))).trans
      (List.map_id' _)
  have hinequalities : p.inequalities.map exactRow = p.inequalities :=
    (List.map_congr_left fun r hr => hrow (.inequality, r) (List.mem_append_right _ (List.mem_map_of_mem hr))).trans
      (List.map_id' _)
  have hinitial : p.initial.map exactNumber = p.initial := Array.map_id' p.initial
  rw [exactProblem, hequalities, hinequalities, hinitial]

/-! ## Anchors -/

/-- Boxes with first unknowns that are multiples of four are anchored once. -/
theorem isAnchoredOnce_of_nodup (hnodup : (p.boxes ++ p.containers).Nodup)
    (hfour : ∀ b ∈ p.boxes ++ p.containers, 4 ∣ b) : isAnchoredOnce p := by
  have hperm : (anchored p).Perm (p.boxes ++ p.containers) := List.mergeSort_perm _ _
  have hmap : (anchors p).map Prod.fst = (anchored p).flatMap fun b => [b, b + 1] := by
    rw [anchors, List.map_flatMap]
    conv_rhs => rw [← List.zipIdx_map_fst 0 (anchored p), List.flatMap_map]
    rfl
  rw [isAnchoredOnce, hmap, decide_eq_true_eq, List.nodup_flatMap]
  refine ⟨fun b _ => by simp, ((hperm.nodup_iff.mpr hnodup).imp_of_mem ?_)⟩
  intro b c hb hc hne k hkb hkc
  have hb4 := hfour b (hperm.mem_iff.mp hb)
  have hc4 := hfour c (hperm.mem_iff.mp hc)
  simp only [List.mem_cons, List.not_mem_nil, or_false] at hkb hkc
  omega

/-! ## Passes -/

section

variable (hrows : ∀ r ∈ p.rows, r.2.IsNormal p.numVars)

include hrows

/-- What is feasible without slack: all rows, with a point that satisfies them, or the rows before the one that is
blamed. -/
theorem feasible_cases : (∃ f, feasible 0 p = .ok f ∧ f.demands = demands p ∧
      ∀ r ∈ p.rows, RowHolds 0 ((Array.range p.numVars).map f.point) r) ∨
    ∃ r, feasible 0 p = .error (.unsatisfiable r.2.label) ∧ IsBlamedRow p.numVars p.rows r := by
  have hnormal : ∀ d ∈ demands p, d.form.IsNormal p.numVars := by
    rw [demands_eq]
    exact List.forall_mem_map.mpr fun r hr => isNormal_demandOf (hrows r hr)
  unfold feasible
  cases hsolve : solveDemands p.numVars 0 (demands p) with
  | ok f =>
    obtain ⟨hdemands, hholds⟩ := solveDemands_eq_ok hnormal hsolve
    refine .inl ⟨f, rfl, hdemands, fun r hr => (holds_demandOf_range_iff (hrows r hr)).mp ?_⟩
    exact hholds _ (List.mem_map_of_mem hr)
  | error k =>
    obtain ⟨r, hr, hblamed⟩ := isBlamedRow_of_isBlamed hrows (solveDemands_eq_error hnormal hsolve)
    refine .inr ⟨r, ?_, hblamed⟩
    simp only [Except.mapError, List.getD_eq_getElem?_getD, List.getElem?_map, hr, Option.map_some, Option.getD_some]

omit hrows in
/-- The point of a pass satisfies all rows. -/
theorem exactPoint_spec {f : Feasible} (hdemands : f.demands = demands p)
    (hpoint : ∀ r ∈ p.rows, RowHolds 0 ((Array.range p.numVars).map f.point) r)
    (tableau : Except PassError (Tableau Rat)) (weights : ExtentWeights Rat) :
    (exactPoint p f tableau weights).size = p.numVars ∧
      ∀ r ∈ p.rows, RowHolds 0 (exactPoint p f tableau weights) r := by
  unfold exactPoint
  dsimp only
  split
  · exact ⟨by simp, hpoint⟩
  · rename_i t _
    split
    · rename_i hall
      rw [hdemands, demands_eq, List.all_map, List.all_eq_true] at hall
      exact ⟨by simp [pointOf], fun r hr => holds_demandOf_iff.mp (hall r hr)⟩
    · exact ⟨by simp, hpoint⟩

/-- The passes have points that satisfy all rows, or there are no passes because of the row that is blamed. -/
theorem linearPass_cases (hanchors : isAnchoredOnce p) :
    (∃ pass, linearPass p = .ok pass ∧ ∀ w, ∃ x, pass w = .ok x ∧ x.size = p.numVars ∧ ∀ r ∈ p.rows, RowHolds 0 x r) ∨
    ∃ r, linearPass p = .error (.unsatisfiable r.2.label) ∧ IsBlamedRow p.numVars p.rows r := by
  unfold linearPass
  rw [hasModestNumbers_eq_true, if_pos rfl, exactProblem_eq_self hrows]
  dsimp only
  show (∃ pass, (feasible 0 p >>= _) = _ ∧ _) ∨ ∃ r, (feasible 0 p >>= _) = _ ∧ _
  rcases feasible_cases hrows with ⟨f, hf, hdemands, hpoint⟩ | ⟨r, hr, hblamed⟩
  · refine .inl ?_
    rw [hf]
    show ∃ pass, (if f.demands = demands p then _ else _) = _ ∧ _
    rw [if_pos hdemands, if_pos hanchors]
    refine ⟨_, rfl, fun w => ⟨_, rfl, ?_⟩⟩
    have hmap : ∀ y : Array Rat, y.map (Scalar.ofRat : Rat → Rat) = y := Array.map_id'
    rw [hmap]
    exact exactPoint_spec hdemands hpoint _ _
  · refine .inr ⟨r, ?_, hblamed⟩
    rw [hr]
    rfl

end

/-! ## Decisions -/

/-- A search decides if all its passes have points that satisfy the rows. -/
theorem exists_minimizeBy {pass : ExtentWeights Rat → Except String (Array Rat)}
    (h : ∀ w, ∃ x, pass w = .ok x ∧ x.size = p.numVars ∧ ∀ r ∈ p.rows, RowHolds 0 x r) :
    (∃ x, minimizeBy p pass = .ok x) ∧
      ∀ x, minimizeBy p pass = .ok x → x.size = p.numVars ∧ ∀ r ∈ p.rows, RowHolds 0 x r := by
  have hspec : ∀ w x, pass w = .ok x → x.size = p.numVars ∧ ∀ r ∈ p.rows, RowHolds 0 x r := by
    intro w x hx
    obtain ⟨y, hy, hspec⟩ := h w
    rwa [Except.ok.inj (hx.symm.trans hy)]
  refine ⟨?_, fun x hx => ?_⟩
  · obtain ⟨x, hx, -, hholds⟩ := h (firstWeights p)
    have hpass : checkedPass p pass (firstWeights p) = .ok x :=
      checkedPass_ok_iff.mpr ⟨hx, fun r hr => RowKind.HoldsWithin.mono (hholds r hr) (by norm_num)⟩
    rw [minimizeBy_eq, hpass]
    exact ⟨_, rfl⟩
  · obtain ⟨w, -, hw⟩ := (isBest_of_minimizeBy (fun w x hx => (hspec w x hx).1) hx).ofPass
    exact hspec w x hw

/-- The optimizer has a point that satisfies all rows, or blames a row. -/
theorem minimize_cases (hrows : ∀ r ∈ p.rows, r.2.IsNormal p.numVars) (hanchors : isAnchoredOnce p) :
    (Solvable p.numVars p.rows ∧ (∃ x, minimize p = .ok x) ∧
      ∀ x, minimize p = .ok x → x.size = p.numVars ∧ ∀ r ∈ p.rows, RowHolds 0 x r) ∨
    ∃ r, IsBlamedRow p.numVars p.rows r ∧ minimize p = .error ("Unsatisfiable constraint: " ++ r.2.label) := by
  unfold minimize
  rcases linearPass_cases hrows hanchors with ⟨pass, hpass, hspec⟩ | ⟨r, hr, hblamed⟩
  · rw [hpass]
    obtain ⟨x, -, hsize, hholds⟩ := hspec []
    refine .inl ⟨⟨x, hsize, hholds⟩, exists_minimizeBy fun w => ?_⟩
    obtain ⟨y, hy, hy'⟩ := hspec w
    exact ⟨y, by rw [hy]; rfl, hy'⟩
  · rw [hr]
    exact .inr ⟨r, hblamed, rfl⟩

theorem isAnchoredOnce_of_compile {d : Design Rat} {a : Allocation} {config : SolveConfig Rat} {c : Compiled Rat}
    (hc : compile d a config = .ok c) : isAnchoredOnce c.problem := by
  obtain ⟨all, -, rfl⟩ := Compiled.exists_rows_of_compile hc
  have hperm : ((Compiled.ofRows a config all).problem.boxes ++ (Compiled.ofRows a config all).problem.containers).Perm
      (a.bases.map Prod.snd) := by
    simp only [Compiled.ofRows, List.partition_eq_filter_filter]
    rw [← List.map_append]
    exact (List.perm_append_comm.trans (List.filter_append_perm _ _)).map _
  refine isAnchoredOnce_of_nodup (hperm.nodup_iff.mpr a.nodup_map_bases) fun b hb => ?_
  obtain ⟨q, hq, rfl⟩ := List.mem_map.mp (hperm.mem_iff.mp hb)
  obtain ⟨⟨m, k⟩, -, rfl⟩ := List.mem_map.mp hq
  exact Dvd.intro_left k rfl

/-- The default optimizer solves a compiled problem exactly if its equalities and inequalities have a common solution,
and then with such a solution. Otherwise its message names the row that is blamed: the first, equalities before
inequalities, that cannot be satisfied together with the rows before it. -/
theorem minimize_decides {d : Design Rat} {a : Allocation} {config : SolveConfig Rat} {c : Compiled Rat}
    (hc : compile d a config = .ok c) :
    ((∃ x, minimize c.problem = .ok x) ↔ Solvable c.problem.numVars c.problem.rows) ∧
    (∀ x, minimize c.problem = .ok x → x.size = c.problem.numVars ∧ ∀ r ∈ c.problem.rows, RowHolds 0 x r) ∧
    ∀ message, minimize c.problem = .error message ↔
      ∃ r, IsBlamedRow c.problem.numVars c.problem.rows r ∧ message = "Unsatisfiable constraint: " ++ r.2.label := by
  have hrows : ∀ r ∈ c.problem.rows, r.2.IsNormal c.problem.numVars := by
    obtain ⟨all, hall, rfl⟩ := Compiled.exists_rows_of_compile hc
    exact fun r hr => Compiled.isNormal_rows hall r (Compiled.mem_rows_ofRows.mp hr).1
  rcases minimize_cases hrows (isAnchoredOnce_of_compile hc) with ⟨hsolvable, hok, hspec⟩ | ⟨r, hblamed, herror⟩
  · refine ⟨iff_of_true hok hsolvable, hspec, fun message => ⟨fun h => ?_, ?_⟩⟩
    · obtain ⟨x, hx⟩ := hok
      cases hx.symm.trans h
    · rintro ⟨r, hr, -⟩
      exact absurd hsolvable hr.not_solvable
  · have hnot : ∀ x, minimize c.problem ≠ .ok x := fun x hx => nomatch herror.symm.trans hx
    refine ⟨iff_of_false (fun ⟨x, hx⟩ => hnot x hx) hblamed.not_solvable, fun x hx => absurd hx (hnot x),
      fun message => ⟨fun h => ⟨r, hblamed, Except.error.inj (h.symm.trans herror)⟩, ?_⟩⟩
    rintro ⟨s, hs, rfl⟩
    rw [herror, hblamed.unique hs]

/-- A polygon that is to be four wide between edges that are two apart. -/
def narrowPad : List (Operation Rat) :=
  [.addCell "top", .addPolygon ⟨0⟩ "A" "met1", .constrain ⟨0⟩ (.polygon ⟨0⟩) "width=4" none,
    .constrain ⟨0⟩ (.polygon ⟨0⟩) "x1=1" none, .constrain ⟨0⟩ (.polygon ⟨0⟩) "x2=3" none]

/-- Any two of the constraints could be satisfied; the last one is blamed. -/
theorem minimize_decides_narrowPad : ∃ a c, Allocation.ofRoot (Design.empty.run narrowPad) ⟨0⟩ = .ok a ∧
    compile (Design.empty.run narrowPad) a .standard = .ok c ∧
    minimize c.problem = .error "Unsatisfiable constraint: top: 'x2=3' (A)" := by
  have hroot : Allocation.ofRoot (Design.empty.run narrowPad) ⟨0⟩ = .ok ⟨[.cell ⟨0⟩, .polygon ⟨0⟩], [⟨0⟩]⟩ := by
    decide +kernel
  have hequalities : (compile (Design.empty.run narrowPad) ⟨[.cell ⟨0⟩, .polygon ⟨0⟩], [⟨0⟩]⟩ .standard).map
      (fun c => (c.problem.numVars, c.problem.equalities)) = .ok (8,
        [⟨#[(4, -1), (6, 1)], -4, "top: 'x2-x1=4' (A)"⟩, ⟨#[(4, 1)], -1, "top: 'x1=1' (A)"⟩,
          ⟨#[(6, 1)], -3, "top: 'x2=3' (A)"⟩]) := by
    decide +kernel
  obtain ⟨c, hc, heq⟩ := map_eq_ok_iff.mp hequalities
  obtain ⟨hsize, hequalities⟩ := Prod.mk.inj heq
  refine ⟨_, c, hroot, hc, ((minimize_decides hc).2.2 _).mpr ⟨(.equality, ⟨#[(6, 1)], -3, "top: 'x2=3' (A)"⟩), ?_, rfl⟩⟩
  rw [Problem.rows, hequalities, hsize]
  refine ⟨[(.equality, ⟨#[(4, -1), (6, 1)], -4, "top: 'x2-x1=4' (A)"⟩), (.equality, ⟨#[(4, 1)], -1, "top: 'x1=1' (A)"⟩)],
    _, rfl, ⟨#[0, 0, 0, 0, 1, 0, 5, 0], rfl, ?_⟩, ?_⟩
  · simp only [List.forall_mem_cons, RowHolds, RowKind.HoldsWithin]
    exact ⟨by decide +kernel, by decide +kernel, List.forall_mem_nil _⟩
  · rintro ⟨x, -, hx⟩
    simp only [List.cons_append, List.nil_append, List.forall_mem_cons, RowHolds, RowKind.HoldsWithin,
      Row.eval_eq_termsAt, Row.termsAt_cons, Row.termsAt_nil] at hx
    linarith [hx.1.1, hx.2.1.2, hx.2.2.1.1]

end RectLayout
