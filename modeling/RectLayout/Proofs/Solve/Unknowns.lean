import RectLayout.Proofs.Design.Fixpoint
import RectLayout.Proofs.Problem.NormalForm
import RectLayout.Proofs.Solve.Rows

/-!
# Which unknowns there are, and which a problem speaks of

The allocation of a root lists the active cells and the nodes of the solve, each once, and its nodes share out the
unknowns: every unknown belongs to exactly one node (`Allocation.exact_of_ofRoot`). The rows that come from no constraint
have one of four shapes (`StructuralShape`), shown family by family; in each of them an unknown is compared with something
else, so all of them are in normal form and none is without unknowns. The operands of a clause are unknowns of the
allocation or numbers too (`isNormal_clauseRow`), so no row speaks of any other unknown (`isNormal_rows`). The boxes and
the containers of a problem are where the listed objects and cells are (`mem_boxes_ofRows_iff`,
`mem_containers_ofRows_iff`). Hence nothing is read beyond the end of a point that has one value for each unknown
(`compile_addresses`).
-/

namespace RectLayout

variable {α : Type} {d : Design α} {root : CellId} {a : Allocation}

/-! ## The blocks of an allocation -/

namespace Allocation

/-- An unknown is one of the four of a node. -/
def Owns (a : Allocation) (n : Node) (k : Nat) : Prop := ∃ base, a.base? n = some base ∧ base ≤ k ∧ k < base + 4

/-- An allocation lists the active cells and the nodes that are solved for, each once, and every unknown belongs to
exactly one node. -/
structure Exact (a : Allocation) (d : Design α) (root : CellId) : Prop where
  mem_cells_iff : ∀ c, c ∈ a.cells ↔ d.Active root c
  nodup_cells : a.cells.Nodup
  mem_nodes_iff : ∀ n, n ∈ a.nodes ↔ n ∈ d.solved root
  nodup_nodes : a.nodes.Nodup
  isSome_base_iff : ∀ n, (a.base? n).isSome ↔ n ∈ a.nodes
  lt_numVars_iff : ∀ k, k < a.numVars ↔ ∃ n, a.Owns n k
  owner_unique : ∀ n m k, a.Owns n k → a.Owns m k → n = m

/-- If no node is listed twice, an unknown belongs to the node at a quarter of its place. -/
theorem owns_iff (h : a.nodes.Nodup) {n : Node} {k : Nat} : a.Owns n k ↔ a.nodes[k / 4]? = some n := by
  simp only [Owns, base?_eq_some_iff h]
  constructor
  · rintro ⟨-, ⟨j, hj, rfl⟩, hle, hlt⟩
    rwa [show k / 4 = j by omega]
  · intro hk
    exact ⟨k / 4 * 4, ⟨k / 4, hk, rfl⟩, by omega, by omega⟩

theorem exact_of_ofRoot (hd : d.WellFormed) (ha : ofRoot d root = .ok a) : a.Exact d root where
  mem_cells_iff _ := mem_cells_iff ha
  nodup_cells := by
    rw [eq_of_ofRoot ha]
    exact d.nodup_activeCells root
  mem_nodes_iff _ := mem_nodes_iff ha
  nodup_nodes := nodup_nodes hd ha
  isSome_base_iff _ := isSome_base?_iff
  lt_numVars_iff k := by
    simp only [owns_iff (nodup_nodes hd ha), ← Option.isSome_iff_exists, isSome_getElem?, numVars]
    omega
  owner_unique n m k hn hm := by
    rw [owns_iff (nodup_nodes hd ha)] at hn hm
    exact Option.some.inj (hn.symm.trans hm)

/-- Nodes have no unknowns in common. -/
theorem Exact.ne_of_ne (h : a.Exact d root) {n m : Node} {b b' : Nat} (hn : a.base? n = some b)
    (hm : a.base? m = some b') (hne : n ≠ m) {j k : Nat} (hj : j < 4) (hk : k < 4) : b + j ≠ b' + k := by
  intro heq
  exact hne (h.owner_unique n m (b + j) ⟨b, hn, by omega, by omega⟩ ⟨b', hm, by omega, by omega⟩)

theorem lt_numVars_of_mem_bases {n : Node} {b : Nat} (h : (n, b) ∈ a.bases) : b + 3 < a.numVars := by
  obtain ⟨⟨m, k⟩, hk, heq⟩ := List.mem_map.mp h
  obtain ⟨-, rfl⟩ := Prod.mk.inj heq
  obtain ⟨hlt, -⟩ := List.getElem?_eq_some_iff.mp (List.mk_mem_zipIdx_iff_getElem?.mp hk)
  rw [numVars]
  omega

/-- No two nodes have the same first unknown. -/
theorem nodup_map_bases (a : Allocation) : (a.bases.map Prod.snd).Nodup := by
  have h : a.bases.map Prod.snd = (a.nodes.zipIdx.map Prod.snd).map (· * 4) := by
    rw [bases, List.map_map, List.map_map]
    rfl
  rw [h, List.zipIdx_map_snd]
  exact List.Nodup.map (fun j k hjk => by simpa using hjk) List.nodup_range'

end Allocation

/-! ## Operands -/

/-- An operand is a number or an unknown below `n`. -/
def Operand.InRange (n : Nat) : Operand α → Prop
  | .unknown i => i < n
  | .fixed _ => True

namespace Allocation

/-- The four coordinates of a node are the unknowns of its block. -/
theorem exists_get_unknowns (base : Nat) (axis : Axis) (corner : Corner) :
    ∃ k < 4, ((unknowns base).get axis corner : Operand α) = .unknown (base + k) := by
  cases axis <;> cases corner
  · exact ⟨0, by omega, rfl⟩
  · exact ⟨2, by omega, rfl⟩
  · exact ⟨1, by omega, rfl⟩
  · exact ⟨3, by omega, rfl⟩

theorem inRange_unknowns {n : Node} {b : Nat} (h : a.base? n = some b) (axis : Axis) (corner : Corner) :
    ((unknowns b).get axis corner : Operand α).InRange a.numVars := by
  obtain ⟨k, hk, heq⟩ := exists_get_unknowns (α := α) b axis corner
  have := lt_numVars_of_base? h
  rw [heq]
  show b + k < a.numVars
  omega

theorem inRange_operands {n : Node} {o : Box (Operand α)} (h : a.operands? d n = some o) (axis : Axis)
    (corner : Corner) : (o.get axis corner).InRange a.numVars := by
  unfold operands? at h
  split at h
  · rename_i base hbase
    obtain rfl := Option.some.inj h
    exact inRange_unknowns hbase axis corner
  · obtain ⟨b, -, rfl⟩ := Option.map_eq_some_iff.mp h
    rw [Box.get_map]
    trivial

end Allocation

variable [Scalar α] {config : SolveConfig α}

namespace Compiled

/-- The coordinates that an instance takes its size from are unknowns of the allocation or numbers. -/
theorem inRange_templateOperands {t : CellId} {o : Box (Operand α)} (ho : templateOperands? d a t = some o) (axis : Axis)
    (corner : Corner) : (o.get axis corner).InRange a.numVars := by
  unfold templateOperands? at ho
  split at ho
  · rename_i b hb
    obtain rfl := Option.some.inj ho
    exact Allocation.inRange_unknowns hb axis corner
  · obtain ⟨box, -, rfl⟩ := Option.map_eq_some_iff.mp ho
    rw [Box.get_map]
    trivial

/-- None of them is an unknown of the instance itself. -/
theorem templateOperands_other (ha : a.Exact d root) {i : InstanceId} {t : CellId} {b : Nat}
    (hb : a.base? (.inst i) = some b) {o : Box (Operand α)} (ho : templateOperands? d a t = some o) (axis : Axis)
    (corner : Corner) {j : Nat} (hj : j < 4) :
    (o.get axis corner).InRange a.numVars ∧ o.get axis corner ≠ .unknown (b + j) := by
  refine ⟨inRange_templateOperands ho axis corner, fun heq => ?_⟩
  unfold templateOperands? at ho
  split at ho
  · rename_i b' hb'
    obtain rfl := Option.some.inj ho
    obtain ⟨k, hk, hget⟩ := Allocation.exists_get_unknowns (α := α) b' axis corner
    -- the template is a node of its own, and nodes have no unknowns in common
    rw [hget] at heq
    exact ha.ne_of_ne hb' hb Node.noConfusion hk hj (Operand.unknown.inj heq)
  · obtain ⟨box, -, rfl⟩ := Option.map_eq_some_iff.mp ho
    rw [Box.get_map] at heq
    cases heq

/-! ## Rows without constraints -/

/-- What the rows that come from no constraint look like: each compares an unknown with something that is not the same
unknown. -/
inductive StructuralShape (n : Nat) : RowKind × Row α → Prop
  /-- A box has a least extent. -/
  | extent {lo hi : Nat} {least : α} {label : String} : lo < n → hi < n → lo ≠ hi →
      StructuralShape n (extentRow lo hi least label)
  /-- A coordinate is not negative. -/
  | corner {i : Nat} {label : String} : i < n → StructuralShape n (.inequality, .ofTerms [(i, 1)] 0 label)
  /-- A coordinate is not less than another one. -/
  | order {i j : Nat} {label : String} : i < n → j < n → j ≠ i →
      StructuralShape n (.inequality, rowOf [(1, .unknown i), (-1, .unknown j)] 0 label)
  /-- Two extents are the same. -/
  | size {i j : Nat} {o o' : Operand α} {label : String} : i < n → j < n → j ≠ i → o.InRange n ∧ o ≠ .unknown i →
      o'.InRange n ∧ o' ≠ .unknown i →
      StructuralShape n (.equality, rowOf [(1, .unknown i), (-1, .unknown j), (-1, o), (1, o')] 0 label)

omit [Scalar α] in
/-- The unknowns of a row of operands are operands of the row. -/
theorem exists_of_mem_unknowns {parts : List (α × Operand α)} {t : Nat × α}
    (h : t ∈ parts.filterMap fun (c, o) => match o with | .unknown i => some (i, c) | .fixed _ => none) :
    ∃ p ∈ parts, p.2 = .unknown t.1 := by
  obtain ⟨⟨c, o⟩, hp, hpt⟩ := List.mem_filterMap.mp h
  cases o with
  | unknown i =>
    obtain rfl := Option.some.inj hpt
    exact ⟨_, hp, rfl⟩
  | fixed v => cases hpt

theorem isNormal_rowOf {n : Nat} {parts : List (α × Operand α)} {constant : α} {label : String}
    (h : ∀ p ∈ parts, p.2.InRange n) : (rowOf parts constant label).IsNormal n := by
  refine Row.isNormal_ofTerms fun t ht => ?_
  obtain ⟨p, hp, hpt⟩ := exists_of_mem_unknowns ht
  have hrange := h p hp
  rwa [hpt] at hrange

/-- A row whose first operand is an unknown that occurs only there has unknowns. -/
theorem not_isConstant_rowOf (hone : (1 : α) != 0) {i : Nat} {parts : List (α × Operand α)} {constant : α}
    {label : String} (h : ∀ p ∈ parts, p.2 ≠ .unknown i) :
    ¬ (rowOf ((1, .unknown i) :: parts) constant label).isConstant := by
  refine Row.not_isConstant_ofTerms hone fun t ht hti => ?_
  obtain ⟨p, hp, hpt⟩ := exists_of_mem_unknowns ht
  exact h p hp (by rw [hpt, hti])

namespace StructuralShape

variable {n : Nat} {r : RowKind × Row α}

theorem isNormal (h : StructuralShape n r) : r.2.IsNormal n := by
  cases h with
  | extent hlo hhi _ => exact Row.isNormal_ofTerms (by simp [hlo, hhi])
  | corner hi => exact Row.isNormal_ofTerms (by simpa using hi)
  | order hi hj _ =>
    refine isNormal_rowOf ?_
    simp only [List.forall_mem_cons]
    exact ⟨hi, hj, List.forall_mem_nil _⟩
  | size hi hj _ ho ho' =>
    refine isNormal_rowOf ?_
    simp only [List.forall_mem_cons]
    exact ⟨hi, hj, ho.1, ho'.1, List.forall_mem_nil _⟩

theorem not_isConstant (hone : (1 : α) != 0) (h : StructuralShape n r) : ¬ r.2.isConstant := by
  cases h with
  | extent _ _ hne => exact Row.not_isConstant_ofTerms hone (by simpa using hne)
  | corner _ => exact Row.not_isConstant_ofTerms hone (List.forall_mem_nil _)
  | order _ _ hne => exact not_isConstant_rowOf hone (by simpa using hne)
  | size _ _ hne ho ho' => exact not_isConstant_rowOf hone (by simp [hne, ho.2, ho'.2])

end StructuralShape

theorem structuralShape_validity : ∀ r ∈ validity d a config, StructuralShape a.numVars r := by
  rw [validity, List.forall_mem_flatMap]
  rintro ⟨n, b⟩ hb
  have := Allocation.lt_numVars_of_mem_bases hb
  simp only [List.forall_mem_cons]
  exact ⟨.extent (by omega) (by omega) (by omega), .extent (by omega) (by omega) (by omega), List.forall_mem_nil _⟩

theorem structuralShape_defaultSizes {mentioned : List Node} :
    ∀ r ∈ defaultSizes d a config mentioned, StructuralShape a.numVars r := by
  rw [defaultSizes, List.forall_mem_flatMap]
  rintro ⟨n, b⟩ hb
  have := Allocation.lt_numVars_of_mem_bases hb
  cases n with
  | cell c => exact List.forall_mem_nil _
  | inst i => exact List.forall_mem_nil _
  | polygon p =>
    dsimp only
    split
    · exact List.forall_mem_nil _
    · simp only [List.forall_mem_cons]
      exact ⟨.corner (by omega), .corner (by omega), .extent (by omega) (by omega) (by omega),
        .extent (by omega) (by omega) (by omega), List.forall_mem_nil _⟩

section

variable (hd : d.WellFormed) (ha : Allocation.ofRoot d root = .ok a)

include hd ha

theorem structuralShape_containment {c : CellId} (hc : d.Active root c) :
    ∀ r ∈ containment d a c, StructuralShape a.numVars r := by
  obtain ⟨b, hb, houter⟩ := exists_unknowns ha (Design.cell_mem_solved_iff.mpr hc)
  simp only [containment, houter, List.forall_mem_flatMap]
  intro n hn
  obtain ⟨b', hb', hinner⟩ := exists_unknowns ha (hc.child_mem_solved hn)
  have hlt := Allocation.lt_numVars_of_base? hb
  have hlt' := Allocation.lt_numVars_of_base? hb'
  -- no child is a cell, so the two boxes share no unknown
  have hne : ∀ j k, j < 4 → k < 4 → b + j ≠ b' + k := fun j k =>
    (Allocation.exact_of_ofRoot hd ha).ne_of_ne hb hb' (Design.cell_ne_of_mem_children hn c).symm
  simp only [hinner, List.map_cons, List.map_nil, List.forall_mem_cons]
  exact ⟨.order (by omega) (by omega) (hne 0 0 (by omega) (by omega)),
    .order (by omega) (by omega) (hne 1 1 (by omega) (by omega)),
    .order (by omega) (by omega) (hne 2 2 (by omega) (by omega)).symm,
    .order (by omega) (by omega) (hne 3 3 (by omega) (by omega)).symm, List.forall_mem_nil _⟩

theorem structuralShape_instanceSizes : ∀ r ∈ instanceSizes d a, StructuralShape a.numVars r := by
  rw [instanceSizes, List.forall_mem_flatMap]
  intro n hn
  cases n with
  | cell c => exact List.forall_mem_nil _
  | polygon p => exact List.forall_mem_nil _
  | inst i =>
    obtain ⟨b, hb, hown⟩ := exists_unknowns ha ((Allocation.mem_nodes_iff ha).mp hn)
    have hlt := Allocation.lt_numVars_of_base? hb
    dsimp only
    split
    · rename_i inst own _ hown'
      obtain rfl := Option.some.inj (hown.symm.trans hown')
      split
      · exact List.forall_mem_nil _
      · rename_i t ht
        have hother := templateOperands_other (Allocation.exact_of_ofRoot hd ha) hb ht
        simp only [List.forall_mem_cons]
        exact ⟨.size (by omega) (by omega) (by omega) (hother .x .max (by omega)) (hother .x .min (by omega)),
          .size (by omega) (by omega) (by omega) (hother .y .max (by omega)) (hother .y .min (by omega)),
          List.forall_mem_nil _⟩
    · exact List.forall_mem_nil _

theorem structuralShape_of_structural : ∀ r ∈ structural d a config, StructuralShape a.numVars r :=
  forall_structural structuralShape_validity structuralShape_defaultSizes
    (fun _ hc => structuralShape_containment hd ha ((Allocation.mem_cells_iff ha).mp hc))
    (structuralShape_instanceSizes hd ha)

end

/-! ## Rows of clauses -/

theorem isNormal_clauseRow {n : Nat} {subject : Box (Operand α)} {object : Option (Box (Operand α))} {label : String}
    {c : Clause α} (hs : ∀ axis corner, (subject.get axis corner).InRange n)
    (ho : ∀ b ∈ object, ∀ axis corner, (b.get axis corner).InRange n) :
    (clauseRow subject object label c).2.IsNormal n := by
  refine isNormal_rowOf fun p hp => ?_
  obtain ⟨u, -, hu⟩ := List.mem_filterMap.mp hp
  obtain ⟨⟨role, axis, corner⟩, -, hu⟩ := Option.bind_eq_some_iff.mp hu
  cases role with
  | subject =>
    obtain rfl := Option.some.inj hu
    exact hs axis corner
  | object =>
    obtain ⟨b, hb, hp⟩ := Option.bind_eq_some_iff.mp hu
    obtain rfl := Option.some.inj hp
    exact ho b hb axis corner

theorem isNormal_constraintRows {cellName : String} {k : Constraint} {rows : List (RowKind × Row α)}
    (h : constraintRows d a cellName k = .ok rows) : ∀ r ∈ rows, r.2.IsNormal a.numVars := by
  obtain ⟨clauses, subject, -, hsubject, -, rfl⟩ := constraintRows_ok h
  refine List.forall_mem_map.mpr fun c _ => isNormal_clauseRow (Allocation.inRange_operands hsubject) fun b hb => ?_
  obtain ⟨n, -, hn⟩ := Option.bind_eq_some_iff.mp hb
  exact Allocation.inRange_operands hn

theorem isNormal_containment (c : CellId) : ∀ r ∈ containment d a c, r.2.IsNormal a.numVars := by
  unfold containment
  split
  · exact List.forall_mem_nil _
  · rename_i outer houter
    rw [List.forall_mem_flatMap]
    intro n _
    split
    · exact List.forall_mem_nil _
    · rename_i inner hinner
      have hin := Allocation.inRange_operands hinner
      have hout := Allocation.inRange_operands houter
      refine List.forall_mem_map.mpr fun q hq => isNormal_rowOf ?_
      simp only [List.forall_mem_cons, List.not_mem_nil, false_imp_iff, implies_true, and_true]
      simp only [List.mem_cons, List.not_mem_nil, or_false] at hq
      rcases hq with rfl | rfl | rfl | rfl
      · exact ⟨hin .x .min, hout .x .min⟩
      · exact ⟨hin .y .min, hout .y .min⟩
      · exact ⟨hout .x .max, hin .x .max⟩
      · exact ⟨hout .y .max, hin .y .max⟩

theorem isNormal_instanceSizes : ∀ r ∈ instanceSizes d a, r.2.IsNormal a.numVars := by
  rw [instanceSizes, List.forall_mem_flatMap]
  intro n _
  cases n with
  | cell c => exact List.forall_mem_nil _
  | polygon p => exact List.forall_mem_nil _
  | inst i =>
    dsimp only
    split
    · rename_i inst own _ hown
      split
      · exact List.forall_mem_nil _
      · rename_i t ht
        have hsize := Allocation.inRange_operands hown
        have htemplate := inRange_templateOperands ht
        simp only [List.forall_mem_cons]
        refine ⟨isNormal_rowOf ?_, isNormal_rowOf ?_, List.forall_mem_nil _⟩
        · simp only [List.forall_mem_cons]
          exact ⟨hsize .x .max, hsize .x .min, htemplate .x .max, htemplate .x .min, List.forall_mem_nil _⟩
        · simp only [List.forall_mem_cons]
          exact ⟨hsize .y .max, hsize .y .min, htemplate .y .max, htemplate .y .min, List.forall_mem_nil _⟩
    · exact List.forall_mem_nil _

/-- Every row is in normal form and speaks of no unknowns but those of the allocation. -/
theorem isNormal_rows {all : List (RowKind × Row α)} (h : rows d a config = .ok all) :
    ∀ r ∈ all, r.2.IsNormal a.numVars := by
  intro r hr
  rcases (mem_rows_iff h).mp hr with hr | ⟨q, -, rows, hrows, hr⟩
  · exact forall_structural (P := fun r => r.2.IsNormal a.numVars) (fun r hr => (structuralShape_validity r hr).isNormal)
      (fun r hr => (structuralShape_defaultSizes r hr).isNormal) (fun c _ => isNormal_containment c)
      isNormal_instanceSizes r hr
  · exact isNormal_constraintRows hrows r hr

/-! ## Boxes and containers -/

theorem mem_boxes_ofRows_iff (h : a.nodes.Nodup) {rows : List (RowKind × Row α)} {b : Nat} :
    b ∈ (ofRows a config rows).problem.boxes ↔ ∃ n, (∀ c, n ≠ .cell c) ∧ a.base? n = some b := by
  simp only [ofRows, List.partition_eq_filter_filter, List.mem_map, List.mem_filter, Prod.exists, exists_eq_right,
    Allocation.mem_bases_iff h]
  refine exists_congr fun n => ?_
  cases n <;> simp

theorem mem_containers_ofRows_iff (h : a.nodes.Nodup) {rows : List (RowKind × Row α)} {b : Nat} :
    b ∈ (ofRows a config rows).problem.containers ↔ ∃ c, a.base? (.cell c) = some b := by
  simp only [ofRows, List.partition_eq_filter_filter, List.mem_map, List.mem_filter, Prod.exists, exists_eq_right,
    Allocation.mem_bases_iff h]
  constructor
  · rintro ⟨n, hb, hn⟩
    cases n with
    | cell c => exact ⟨c, hb⟩
    | polygon p => cases hn
    | inst i => cases hn
  · rintro ⟨c, hb⟩
    exact ⟨.cell c, hb, rfl⟩

theorem size_initialPoint (a : Allocation) (config : SolveConfig α) : (initialPoint a config).size = a.numVars := by
  simp [initialPoint, Allocation.numVars, List.length_flatMap, List.map_const']

end Compiled

/-! ## Problems over an allocation -/

/-- A problem speaks of the unknowns of an allocation: its rows are in normal form and name no others, its boxes are
those of the listed polygons and instances and its containers those of the listed cells, each once, and its initial
point has one value for each unknown. -/
structure Problem.Addresses (p : Problem α) (a : Allocation) : Prop where
  numVars : p.numVars = a.numVars
  rows : ∀ r ∈ p.rows, r.2.IsNormal a.numVars
  mem_boxes_iff : ∀ b, b ∈ p.boxes ↔ ∃ n, (∀ c, n ≠ .cell c) ∧ a.base? n = some b
  nodup_boxes : p.boxes.Nodup
  mem_containers_iff : ∀ b, b ∈ p.containers ↔ ∃ c, a.base? (.cell c) = some b
  nodup_containers : p.containers.Nodup
  initial : p.initial.size = a.numVars

/-- All that is read of a point is there: for the rows, for the area and its gradient, and for the boxes of nodes. -/
structure Problem.Reads (p : Problem α) (a : Allocation) (x : Array α) : Prop where
  rows : ∀ r ∈ p.rows, r.2.eval? x = some (r.2.eval x)
  area : area? p.boxes x = some (RectLayout.area p.boxes x)
  gradient : areaGradient? p.boxes x = some (areaGradient p.boxes x)
  boxes : ∀ n, (a.base? n).bind (boxAt? x) = a.boxOf? n x

theorem addresses_of_compile (hd : d.WellFormed) (ha : Allocation.ofRoot d root = .ok a) {c : Compiled α}
    (hc : compile d a config = .ok c) : c.problem.Addresses a := by
  obtain ⟨all, hall, rfl⟩ := Compiled.exists_rows_of_compile hc
  have hnodup := Allocation.nodup_nodes hd ha
  refine ⟨rfl, fun r hr => Compiled.isNormal_rows hall r (Compiled.mem_rows_ofRows.mp hr).1,
    fun b => Compiled.mem_boxes_ofRows_iff hnodup, ?_, fun b => Compiled.mem_containers_ofRows_iff hnodup, ?_,
    Compiled.size_initialPoint a config⟩
  all_goals
    simp only [Compiled.ofRows, List.partition_eq_filter_filter]
    exact a.nodup_map_bases.sublist (List.filter_sublist.map _)

theorem Problem.Addresses.reads {p : Problem α} (h : p.Addresses a) {x : Array α} (hx : x.size = a.numVars) :
    p.Reads a x := by
  have hboxes : ∀ b ∈ p.boxes, b + 3 < x.size := by
    intro b hb
    obtain ⟨n, -, hn⟩ := (h.mem_boxes_iff b).mp hb
    rw [hx]
    exact Allocation.lt_numVars_of_base? hn
  refine ⟨fun r hr => Row.eval?_eq_some ?_, area?_eq_some hboxes, areaGradient?_eq_some hboxes, fun n => ?_⟩
  · rw [hx]
    exact (h.rows r hr).inRange
  · cases hn : a.base? n with
    | none => rw [Allocation.boxOf?, hn, Option.bind_none, Option.map_none]
    | some b =>
      have hlt := Allocation.lt_numVars_of_base? hn
      rw [Allocation.boxOf?, hn, Option.bind_some, Option.map_some, boxAt?_eq_some (hx ▸ hlt)]

/-- A root that is not frozen has an allocation, which lists exactly what is solved for and gives each node four unknowns
of its own. Whatever compiles from it speaks of these unknowns only, and nothing is read beyond the end of a point that
has one value for each. -/
theorem compile_addresses (hd : d.WellFormed) (hroot : d.isActive root) :
    ∃ a, Allocation.ofRoot d root = .ok a ∧ a.Exact d root ∧ ∀ config c, compile d a config = .ok c →
      c.problem.Addresses a ∧ ∀ x : Array α, x.size = a.numVars → c.problem.Reads a x := by
  have ha := Allocation.ofRoot_eq hroot
  refine ⟨_, ha, Allocation.exact_of_ofRoot hd ha, fun config c hc => ?_⟩
  have h := addresses_of_compile hd ha hc
  exact ⟨h, fun x => h.reads⟩

/-- A cell that is drawn twice is allocated once, and a frozen one is not. -/
theorem compile_addresses_mixedBlock : ∃ a c,
    Allocation.ofRoot (Design.empty.run Design.mixedBlock) ⟨4⟩ = .ok a ∧
    a.Exact (Design.empty.run Design.mixedBlock) ⟨4⟩ ∧
    a.cells = [⟨4⟩, ⟨3⟩, ⟨0⟩, ⟨2⟩] ∧ a.numVars = 44 ∧
    compile (Design.empty.run Design.mixedBlock) a .standard = .ok c ∧
    c.problem.Addresses a ∧ c.problem.containers = [0, 8, 28, 40] ∧
    c.problem.boxes = [4, 12, 16, 20, 24, 32, 36] ∧ c.problem.Reads a (Array.replicate 44 7) := by
  have hd : (Design.empty.run Design.mixedBlock).WellFormed := Design.Reachable.wellFormed ⟨Design.mixedBlock, rfl⟩
  obtain ⟨a, ha, hexact, hcompile⟩ := compile_addresses hd (show (Design.empty.run Design.mixedBlock).isActive ⟨4⟩ by
    decide +kernel)
  have hlists : (Allocation.ofRoot (Design.empty.run Design.mixedBlock) ⟨4⟩).map (fun a => (a.cells, a.numVars)) =
      .ok ([⟨4⟩, ⟨3⟩, ⟨0⟩, ⟨2⟩], 44) := by decide +kernel
  have hproblem : ((Allocation.ofRoot (Design.empty.run Design.mixedBlock) ⟨4⟩).bind fun a =>
      (compile (Design.empty.run Design.mixedBlock) a .standard).map fun c => (c.problem.containers, c.problem.boxes)) =
      .ok ([0, 8, 28, 40], [4, 12, 16, 20, 24, 32, 36]) := by
    decide +kernel
  rw [ha] at hlists hproblem
  simp only [Except.map, Except.bind, Except.ok.injEq, Prod.mk.injEq] at hlists hproblem
  cases hc : compile (Design.empty.run Design.mixedBlock) a .standard with
  | error e =>
    rw [hc] at hproblem
    cases hproblem
  | ok c =>
    rw [hc] at hproblem
    simp only [Except.ok.injEq, Prod.mk.injEq] at hproblem
    obtain ⟨haddresses, hreads⟩ := hcompile _ c hc
    exact ⟨a, c, ha, hexact, hlists.1, hlists.2, hc, haddresses, hproblem.1, hproblem.2,
      hreads _ (by rw [Array.size_replicate, hlists.2])⟩

end RectLayout
