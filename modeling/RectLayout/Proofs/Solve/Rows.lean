import RectLayout.Proofs.Clause.Meaning
import RectLayout.Proofs.Problem.Row
import RectLayout.Proofs.Solve.Allocation
import RectLayout.Solve.Compile

/-!
# Rows over boxes

A point gives boxes to the nodes that are solved for, and the design to all others (`Allocation.read`). A row of
operands has the value of these at the point (`eval_rowOf`), so the row of a clause holds exactly if the clause does
(`rowHolds_clauseRow`), and the rows of a constraint hold exactly if all its clauses do (`constraintRows_iff`). Rows
without unknowns are decided at once and left out of a problem, which changes nothing (`satisfied_ofRows_iff`). A row
comes from a constraint, or the design would have it without constraints too (`mem_rows_iff`).
-/

namespace RectLayout

/-! ## Boxes at a point -/

theorem Box.get_map {β γ : Type} (f : β → γ) (b : Box β) (axis : Axis) (corner : Corner) :
    (b.map f).get axis corner = f (b.get axis corner) := by
  cases axis <;> cases corner <;> rfl

/-- The box of a node at a point: its unknowns if it is solved for, and its box in the design if not. -/
def Allocation.read (a : Allocation) (d : Design Rat) (x : Array Rat) (n : Node) : Option (Box Rat) :=
  match a.base? n with
  | some base => some (boxAt x base)
  | none => d.box? n

/-- The node that has a role in a constraint. -/
def Constraint.node? (k : Constraint) : Role → Option Node
  | .subject => some k.subject
  | .object => k.object

/-- The boxes that the clauses of a constraint speak of. -/
def Constraint.boxes (box : Node → Option (Box Rat)) (k : Constraint) (role : Role) : Option (Box Rat) :=
  (k.node? role).bind box

/-- The label of the row of a clause: the constraint's cell, the clause, and the nodes that it is about. -/
def Constraint.label {α : Type} (d : Design α) (cellName : String) (k : Constraint) (clause : Clause α) : String :=
  let participants := match k.object with
    | some o => s!"{d.name k.subject}, {d.name o}"
    | none => d.name k.subject
  s!"{cellName}: '{clause.text}' ({participants})"

/-- The value of an operand at a point. -/
def Operand.value (x : Array Rat) : Operand Rat → Rat
  | .unknown i => valueAt x i
  | .fixed v => v

/-- The demand of a row is met at a point. -/
def RowHolds (t : Rat) (x : Array Rat) (r : RowKind × Row Rat) : Prop := r.1.HoldsWithin t (r.2.eval x)

namespace Compiled

variable {d : Design Rat} {a : Allocation} {root : CellId} {config : SolveConfig Rat} {x : Array Rat} {t : Rat}

theorem read_eq_map_operands (n : Node) : a.read d x n = (a.operands? d n).map (Box.map (Operand.value x)) := by
  unfold Allocation.read Allocation.operands?
  cases a.base? n with
  | some base => rfl
  | none =>
    rw [Option.map_map]
    exact Option.map_id'.symm

/-- The operands of a node that is solved for are its unknowns. -/
theorem exists_unknowns {α : Type} {d : Design α} (ha : Allocation.ofRoot d root = .ok a) {n : Node}
    (hn : n ∈ d.solved root) :
    ∃ b, a.base? n = some b ∧ a.operands? d n = some (Allocation.unknowns b) := by
  obtain ⟨b, hb, -⟩ := Allocation.exists_base ((Allocation.mem_nodes_iff ha).mpr hn)
  exact ⟨b, hb, by rw [Allocation.operands?, hb]⟩

/-- A node that is solved for has operands. -/
theorem exists_operands (ha : Allocation.ofRoot d root = .ok a) {n : Node} (hn : n ∈ d.solved root) :
    ∃ o, a.operands? d n = some o := by
  obtain ⟨b, -, hb⟩ := exists_unknowns ha hn
  exact ⟨_, hb⟩

/-- A node that is solved for has a box at every point. -/
theorem exists_read (ha : Allocation.ofRoot d root = .ok a) (x : Array Rat) {n : Node} (hn : n ∈ d.solved root) :
    ∃ b, a.read d x n = some b := by
  obtain ⟨o, ho⟩ := exists_operands ha hn
  exact ⟨o.map (Operand.value x), by rw [read_eq_map_operands, ho]; rfl⟩

/-! ## Rows -/

/-- A row of operands has the value of the operands it was made from. -/
theorem eval_rowOf (parts : List (Rat × Operand Rat)) (constant : Rat) (label : String) :
    (rowOf parts constant label).eval x = (parts.map fun p => p.1 * p.2.value x).sum + constant := by
  rw [rowOf, Row.eval_ofTerms]
  induction parts generalizing constant with
  | nil => simp
  | cons p parts ih =>
    obtain ⟨c, o⟩ := p
    cases o with
    | unknown i =>
      have h := ih constant
      simp only [List.filterMap_cons, List.foldl_cons, Row.termsAt_cons, List.map_cons, List.sum_cons] at h ⊢
      rw [add_assoc, h]
      simp only [Operand.value]
      ring
    | fixed v =>
      have h := ih (constant + c * v)
      simp only [List.filterMap_cons, List.foldl_cons, List.map_cons, List.sum_cons] at h ⊢
      rw [h]
      simp only [Operand.value]
      ring

theorem rowHolds_extentRow {lo hi : Nat} {least : Rat} {label : String} :
    RowHolds t x (extentRow lo hi least label) ↔ least ≤ valueAt x hi - valueAt x lo + t := by
  simp only [RowHolds, extentRow, RowKind.HoldsWithin, Row.eval_ofTerms, Row.termsAt_cons, Row.termsAt_nil]
  show -t ≤ 1 * _ + (-1 * _ + 0) + -least ↔ _
  constructor <;> intro h <;> linarith

theorem rowHolds_difference {hi lo : Operand Rat} {label : String} :
    RowHolds t x (.inequality, rowOf [(1, hi), (-1, lo)] 0 label) ↔ lo.value x ≤ hi.value x + t := by
  simp only [RowHolds, RowKind.HoldsWithin, eval_rowOf, List.map_cons, List.map_nil, List.sum_cons, List.sum_nil]
  show -t ≤ 1 * _ + (-1 * _ + 0) + 0 ↔ _
  constructor <;> intro h <;> linarith

theorem rowHolds_extentDifference {a b c e : Operand Rat} {label : String} :
    RowHolds t x (.equality, rowOf [(1, a), (-1, b), (-1, c), (1, e)] 0 label) ↔
      |(a.value x - b.value x) - (c.value x - e.value x)| ≤ t := by
  simp only [RowHolds, RowKind.HoldsWithin, eval_rowOf, List.map_cons, List.map_nil, List.sum_cons, List.sum_nil,
    abs_le]
  have h : (1 : Rat) * a.value x + (-1 * b.value x + (-1 * c.value x + (1 * e.value x + 0))) + 0 =
      (a.value x - b.value x) - (c.value x - e.value x) := by ring
  exact Iff.of_eq (congrArg (fun v => -t ≤ v ∧ v ≤ t) h)

/-! ## Rows without unknowns -/

theorem mem_rows_ofRows {α : Type} [Scalar α] {config : SolveConfig α} {rows : List (RowKind × Row α)}
    {r : RowKind × Row α} : r ∈ (ofRows a config rows).problem.rows ↔ r ∈ rows ∧ ¬ r.2.isConstant := by
  obtain ⟨kind, r⟩ := r
  cases kind <;> simp [ofRows, Problem.rows, List.partition_eq_filter_filter]

theorem not_fails_iff {r : RowKind × Row Rat} : fails t r = false ↔ r.1.HoldsWithin t r.2.constant := by
  obtain ⟨kind, r⟩ := r
  cases kind with
  | equality =>
    simp only [fails, RowKind.HoldsWithin, decide_eq_false_iff_not, not_lt]
    exact Scalar.abs_le_iff
  | inequality =>
    simp only [fails, RowKind.HoldsWithin, decide_eq_false_iff_not]
    exact not_lt

theorem infeasible_ofRows_iff (rows : List (RowKind × Row Rat)) : (ofRows a config rows).infeasible = [] ↔
    ∀ r ∈ rows, r.2.isConstant → RowHolds config.correction.tolerance x r := by
  simp only [ofRows, List.partition_eq_filter_filter, List.map_eq_nil_iff, List.filter_eq_nil_iff, List.mem_filter,
    and_imp, Bool.not_eq_true]
  refine forall₃_congr fun r _ hr => ?_
  rw [not_fails_iff, RowHolds, Row.eval_of_isConstant hr]

/-- No row is found infeasible and the problem is satisfied exactly if all rows hold. -/
theorem satisfied_ofRows_iff (ht : 0 ≤ config.correction.tolerance) (rows : List (RowKind × Row Rat)) :
    ((ofRows a config rows).infeasible = [] ∧
        (ofRows a config rows).problem.isSatisfied x config.correction.tolerance) ↔
      ∀ r ∈ rows, RowHolds config.correction.tolerance x r := by
  rw [infeasible_ofRows_iff (x := x), Problem.isSatisfied_iff ht]
  simp only [mem_rows_ofRows, and_imp]
  constructor
  · rintro ⟨h₁, h₂⟩ r hr
    by_cases hc : r.2.isConstant
    · exact h₁ r hr hc
    · exact h₂ r hr hc
  · exact fun h => ⟨fun r hr _ => h r hr, fun r hr _ => h r hr⟩

/-- A problem that was compiled is made of all rows. -/
theorem exists_rows_of_compile {α : Type} [Scalar α] {d : Design α} {config : SolveConfig α} {c : Compiled α}
    (h : compile d a config = .ok c) : ∃ all, rows d a config = .ok all ∧ ofRows a config all = c := by
  unfold compile at h
  cases hrows : rows d a config with
  | error e =>
    rw [hrows] at h
    cases h
  | ok all =>
    rw [hrows] at h
    exact ⟨all, rfl, Except.ok.inj h⟩

/-! ## Clauses -/

/-- The multiple of an operand that a term with a coordinate stands for. -/
def part (subject : Box (Operand Rat)) (object : Option (Box (Operand Rat))) (u : Term Rat) :
    Option (Rat × Operand Rat) :=
  match u.coord with
  | none => none
  | some ⟨.subject, axis, corner⟩ => some (u.coefficient, subject.get axis corner)
  | some ⟨.object, axis, corner⟩ => object.map fun b => (u.coefficient, b.get axis corner)

theorem clauseRow_eq (subject : Box (Operand Rat)) (object : Option (Box (Operand Rat))) (label : String)
    (c : Clause Rat) : clauseRow subject object label c =
      ((match c.relation with | .equal _ => .equality | .nonNegative _ => .inequality),
        rowOf (c.relation.expr.terms.filterMap (part subject object))
          (Scalar.sum ((c.relation.expr.terms.filter fun u => u.coord.isNone).map Term.coefficient)) label) := by
  unfold clauseRow
  cases c.relation
  all_goals
    refine Prod.ext rfl (congrArg (rowOf · _ label) (List.filterMap_congr fun u _ => ?_))
    obtain ⟨coefficient, _ | ⟨_ | _, axis, corner⟩⟩ := u
    · rfl
    · rfl
    · cases object <;> rfl

/-- The operands and the numbers of a sum add up to its value. -/
theorem sum_parts_eq_value {subject : Box (Operand Rat)} {object : Option (Box (Operand Rat))}
    {boxes : Role → Option (Box Rat)} (hs : boxes .subject = some (subject.map (Operand.value x)))
    (ho : boxes .object = object.map (Box.map (Operand.value x))) {e : LinearExpr Rat} {v : Rat}
    (hv : e.value? boxes = some v) :
    ((e.terms.filterMap (part subject object)).map fun p => p.1 * p.2.value x).sum +
      ((e.terms.filter fun u => u.coord.isNone).map Term.coefficient).sum = v := by
  obtain ⟨us⟩ := e
  induction us generalizing v with
  | nil =>
    have hv : v = 0 := (Option.some.inj hv).symm
    simp [hv]
  | cons u us ih =>
    obtain ⟨b, s, hb, hs', rfl⟩ := LinearExpr.value?_cons_eq_some.mp hv
    have h := ih hs'
    obtain ⟨coefficient, _ | ⟨_ | _, axis, corner⟩⟩ := u
    · cases hb
      simp only [List.filterMap_cons, part, List.filter_cons, Option.isNone_none, if_true, List.map_cons, List.sum_cons]
      linarith
    · simp only [Term.value?, hs, Option.map_some, Option.some.injEq, Box.get_map] at hb
      simp only [List.filterMap_cons, part, List.filter_cons, List.map_cons, List.sum_cons, Option.isNone_some,
        Bool.false_eq_true, if_false]
      linarith
    · simp only [Term.value?, ho, Option.map_map, Option.map_eq_some_iff] at hb
      obtain ⟨o, rfl, rfl⟩ := hb
      simp only [List.filterMap_cons, part, List.filter_cons, List.map_cons, List.sum_cons, Option.isNone_some,
        Bool.false_eq_true, if_false, Option.map_some, Function.comp_apply, Box.get_map]
      linarith

/-- The row of a clause holds exactly if the clause does. -/
theorem rowHolds_clauseRow {subject : Box (Operand Rat)} {object : Option (Box (Operand Rat))} {label : String}
    {boxes : Role → Option (Box Rat)} (hs : boxes .subject = some (subject.map (Operand.value x)))
    (ho : boxes .object = object.map (Box.map (Operand.value x))) {c : Clause Rat} {l r : Rat}
    (hl : c.lhs.value? boxes = some l) (hr : c.rhs.value? boxes = some r) :
    RowHolds t x (clauseRow subject object label c) ↔ c.HoldsWithin t boxes := by
  obtain ⟨v, hv⟩ := Clause.exists_value_relation hl hr
  rw [← Clause.holdsWithin_relation_iff hl hr, clauseRow_eq, RowHolds, eval_rowOf, Scalar.sum_eq_list_sum,
    sum_parts_eq_value hs ho hv]
  cases hrel : c.relation with
  | equal e =>
    rw [hrel] at hv
    simp only [Relation.HoldsWithin, RowKind.HoldsWithin]
    constructor
    · intro h
      exact ⟨v, hv, h⟩
    · rintro ⟨w, hw, h⟩
      rwa [Option.some.inj (hv.symm.trans hw)]
  | nonNegative e =>
    rw [hrel] at hv
    simp only [Relation.HoldsWithin, RowKind.HoldsWithin]
    constructor
    · intro h
      exact ⟨v, hv, h⟩
    · rintro ⟨w, hw, h⟩
      rwa [Option.some.inj (hv.symm.trans hw)]

/-! ## Constraints -/

/-- A constraint that compiles has clauses and operands, and one row for each clause. -/
theorem constraintRows_ok {α : Type} [Scalar α] {d : Design α} {cellName : String} {k : Constraint}
    {rows : List (RowKind × Row α)} (h : constraintRows d a cellName k = .ok rows) : ∃ clauses subject,
      Clause.parseAll k.clause k.object.isSome = .ok clauses ∧ a.operands? d k.subject = some subject ∧
      (∀ n ∈ k.object, (a.operands? d n).isSome) ∧
      rows = clauses.map fun c => clauseRow subject (k.object.bind (a.operands? d)) (k.label d cellName c) c := by
  have hresolve : ∀ {n o}, resolve d a k.clause n = .ok o → a.operands? d n = some o := by
    intro n o hn
    unfold resolve at hn
    split at hn
    · rename_i b hb
      rw [hb, Except.ok.inj hn]
    · cases hn
  obtain ⟨clauses, hclauses, h⟩ := bind_eq_ok_iff.mp h
  obtain ⟨subject, hsubject, h⟩ := bind_eq_ok_iff.mp h
  obtain ⟨object, hobject, h⟩ := bind_eq_ok_iff.mp h
  cases h
  refine ⟨clauses, subject, mapError_eq_ok_iff.mp hclauses, hresolve hsubject, ?_⟩
  cases hk : k.object with
  | none =>
    rw [hk] at hobject
    cases hobject
    refine ⟨fun _ hn => absurd hn (Option.not_mem_none _), ?_⟩
    simp only [Constraint.label, hk]
    rfl
  | some n =>
    rw [hk, Option.mapM_some] at hobject
    obtain ⟨o, ho, hobject⟩ : ∃ o, resolve d a k.clause n = .ok o ∧ object = some o := by
      cases ho : resolve d a k.clause n with
      | error e => rw [ho] at hobject; cases hobject
      | ok o => rw [ho] at hobject; cases hobject; exact ⟨o, rfl, rfl⟩
    refine ⟨fun m hm => by cases hm; rw [hresolve ho]; rfl, ?_⟩
    simp only [Constraint.label, hk, hobject, Option.bind_some, hresolve ho]

/-- A constraint that compiles has a row for each clause, with the label of the clause, which holds at a point exactly
if the clause holds of the boxes there. -/
theorem constraintRows_spec {cellName : String} {k : Constraint} {rows : List (RowKind × Row Rat)}
    (h : constraintRows d a cellName k = .ok rows) : ∃ clauses row,
      Clause.parseAll k.clause k.object.isSome = .ok clauses ∧ rows = clauses.map row ∧
      ∀ clause ∈ clauses, (row clause).2.label = k.label d cellName clause ∧
        ∀ t x, RowHolds t x (row clause) ↔ clause.HoldsWithin t (k.boxes (a.read d x)) := by
  obtain ⟨clauses, subject, hclauses, hsubject, hobject, rfl⟩ := constraintRows_ok h
  refine ⟨clauses, _, hclauses, rfl, fun clause hclause => ⟨by rw [clauseRow_eq]; rfl, fun t x => ?_⟩⟩
  have hs : k.boxes (a.read d x) .subject = some (subject.map (Operand.value x)) := by
    show a.read d x k.subject = _
    rw [read_eq_map_operands, hsubject]
    rfl
  have ho : k.boxes (a.read d x) .object = (k.object.bind (a.operands? d)).map (Box.map (Operand.value x)) := by
    rw [Option.map_bind]
    exact congrArg k.object.bind (funext read_eq_map_operands)
  have hbox : ∀ c, clause.Names c → (k.boxes (a.read d x) c.role).isSome := by
    intro c hc
    cases hrole : c.role with
    | subject => rw [hs]; rfl
    | object =>
      obtain ⟨n, hn⟩ := Option.isSome_iff_exists.mp (Clause.hasObject_of_parseAll hclauses hclause hc hrole)
      rw [ho, hn, Option.isSome_map]
      exact hobject n hn
  obtain ⟨l, hl⟩ := LinearExpr.exists_value fun u hu c hc => hbox c ⟨u, .inl hu, hc⟩
  obtain ⟨r, hr⟩ := LinearExpr.exists_value fun u hu c hc => hbox c ⟨u, .inr hu, hc⟩
  exact rowHolds_clauseRow hs ho hl hr

/-- The rows of a constraint hold at a point exactly if its clauses hold of the boxes there. -/
theorem constraintRows_iff {cellName : String} {k : Constraint} {rows : List (RowKind × Row Rat)}
    (h : constraintRows d a cellName k = .ok rows) : (∀ r ∈ rows, RowHolds t x r) ↔
      ∃ clauses, Clause.parseAll k.clause k.object.isSome = .ok clauses ∧
        ∀ clause ∈ clauses, clause.HoldsWithin t (k.boxes (a.read d x)) := by
  obtain ⟨clauses, row, hclauses, rfl, hrow⟩ := constraintRows_spec h
  simp only [List.forall_mem_map, hclauses, Except.ok.injEq, exists_eq_left']
  exact forall₂_congr fun clause hclause => (hrow clause hclause).2 t x

/-! ## Where rows come from -/

section Origin

variable {α : Type} [Scalar α]

/-- The rows that a design has without its constraints. -/
def structural (d : Design α) (a : Allocation) (config : SolveConfig α) : List (RowKind × Row α) :=
  validity d a config ++ (if config.defaultSizing then defaultSizes d a config (mentioned d a) else []) ++
    a.cells.flatMap (containment d a) ++ instanceSizes d a

theorem forall_structural {d : Design α} {config : SolveConfig α} {P : RowKind × Row α → Prop}
    (hvalidity : ∀ r ∈ validity d a config, P r) (hdefaults : ∀ r ∈ defaultSizes d a config (mentioned d a), P r)
    (hinside : ∀ c ∈ a.cells, ∀ r ∈ containment d a c, P r) (hsizes : ∀ r ∈ instanceSizes d a, P r) :
    ∀ r ∈ structural d a config, P r := by
  simp only [structural, List.forall_mem_append, List.forall_mem_flatMap]
  refine ⟨⟨⟨hvalidity, ?_⟩, hinside⟩, hsizes⟩
  split
  · exact hdefaults
  · exact List.forall_mem_nil _

/-- A row comes from a clause of an active constraint. -/
def IsClauseRow (d : Design α) (a : Allocation) (r : RowKind × Row α) : Prop :=
  ∃ q ∈ activeConstraints d a, ∃ rows, constraintRows d a q.1 q.2 = .ok rows ∧ r ∈ rows

theorem mem_rows_iff {d : Design α} {config : SolveConfig α} {all : List (RowKind × Row α)}
    (h : rows d a config = .ok all) {r : RowKind × Row α} :
    r ∈ all ↔ r ∈ structural d a config ∨ IsClauseRow d a r := by
  obtain ⟨lists, hlists, h⟩ := bind_eq_ok_iff.mp h
  cases h
  have hclauses : r ∈ lists.flatten ↔ IsClauseRow d a r := by
    rw [List.mem_flatten]
    constructor
    · rintro ⟨rows, hrows, hr⟩
      obtain ⟨q, hq, hqrows⟩ := exists_of_mem_mapM hlists hrows
      exact ⟨q, hq, rows, hqrows, hr⟩
    · rintro ⟨q, hq, rows, hqrows, hr⟩
      obtain ⟨rows', hrows', hqrows'⟩ := exists_mem_of_mapM hlists hq
      obtain rfl := Except.ok.inj (hqrows.symm.trans hqrows')
      exact ⟨rows, hrows', hr⟩
  simp only [structural, List.mem_append, hclauses]
  tauto

end Origin

end Compiled

end RectLayout
