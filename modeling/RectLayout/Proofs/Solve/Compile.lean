import RectLayout.Proofs.Solve.Determinism
import RectLayout.Proofs.Solve.Rows

/-!
# What a compiled problem demands

`Design.Meets` says, of boxes for the nodes of a design, what a solve from a root wants of them. Each family of rows
says one of the wants, of the boxes that a point gives to the nodes, so a compiled problem holds at a point exactly if
these boxes are wanted (`compiled_iff_meets`).
-/

namespace RectLayout

/-! ## What is wanted -/

namespace Design

/-- A constraint of an active cell names a node. -/
def Names (d : Design Rat) (root : CellId) (n : Node) : Prop :=
  ∃ c cell, d.Active root c ∧ d.cell? c = some cell ∧ ∃ k ∈ cell.constraints, k.subject = n ∨ k.object = some n

/-- What a solve from `root` wants of the boxes of nodes, up to the tolerance `t`. -/
structure Meets (d : Design Rat) (root : CellId) (config : SolveConfig Rat) (t : Rat)
    (box : Node → Option (Box Rat)) : Prop where
  extents : ∀ n ∈ d.solved root, ∃ b, box n = some b ∧ config.epsilon ≤ b.width + t ∧ config.epsilon ≤ b.height + t
  defaults : config.defaultSizing → ∀ p, .polygon p ∈ d.solved root → ¬ d.Names root (.polygon p) →
    ∃ b, box (.polygon p) = some b ∧ 0 ≤ b.x1 + t ∧ 0 ≤ b.y1 + t ∧
      config.defaultMinSize ≤ b.width + t ∧ config.defaultMinSize ≤ b.height + t
  inside : ∀ c, d.Active root c → ∀ n ∈ d.children c, ∃ outer inner, box (.cell c) = some outer ∧ box n = some inner ∧
    outer.x1 ≤ inner.x1 + t ∧ outer.y1 ≤ inner.y1 + t ∧ inner.x2 ≤ outer.x2 + t ∧ inner.y2 ≤ outer.y2 + t
  sizes : ∀ i inst, .inst i ∈ d.solved root → d.instance? i = some inst →
    ∃ own drawn, box (.inst i) = some own ∧ box (.cell inst.template) = some drawn ∧
      |own.width - drawn.width| ≤ t ∧ |own.height - drawn.height| ≤ t
  clauses : ∀ c cell, d.Active root c → d.cell? c = some cell → ∀ k ∈ cell.constraints,
    ∃ clauses, Clause.parseAll k.clause k.object.isSome = .ok clauses ∧
      ∀ clause ∈ clauses, clause.HoldsWithin t (k.boxes box)

end Design

namespace Compiled

variable {d : Design Rat} {a : Allocation} {root : CellId} {config : SolveConfig Rat} {x : Array Rat} {t : Rat}

/-! ## The families of rows -/

/-- What holds of the boxes at all first unknowns holds of the boxes of all nodes that are solved for. -/
theorem forall_bases_iff (hd : d.WellFormed) (ha : Allocation.ofRoot d root = .ok a) {P : Node → Box Rat → Prop} :
    (∀ p ∈ a.bases, P p.1 (boxAt x p.2)) ↔ ∀ n ∈ d.solved root, ∃ b, a.read d x n = some b ∧ P n b := by
  have hnodup := Allocation.nodup_nodes hd ha
  constructor
  · intro h n hn
    have hlisted : n ∈ a.nodes := (Allocation.mem_nodes_iff ha).mpr hn
    obtain ⟨b, hb⟩ := Option.isSome_iff_exists.mp (Allocation.isSome_base?_iff.mpr hlisted)
    refine ⟨boxAt x b, by rw [Allocation.read, hb], ?_⟩
    exact h (n, b) ((Allocation.mem_bases_iff hnodup).mpr hb)
  · rintro h ⟨n, b⟩ hp
    have hb := (Allocation.mem_bases_iff hnodup).mp hp
    have hn := (Allocation.mem_nodes_iff ha).mp (Allocation.isSome_base?_iff.mp (by rw [hb]; rfl))
    obtain ⟨b', hread, hP⟩ := h n hn
    rw [Allocation.read, hb] at hread
    rwa [← Option.some.inj hread] at hP

theorem validity_iff (hd : d.WellFormed) (ha : Allocation.ofRoot d root = .ok a) :
    (∀ r ∈ validity d a config, RowHolds t x r) ↔ ∀ n ∈ d.solved root, ∃ b, a.read d x n = some b ∧
      config.epsilon ≤ b.width + t ∧ config.epsilon ≤ b.height + t := by
  rw [← forall_bases_iff hd ha]
  simp only [validity, List.forall_mem_flatMap, List.forall_mem_cons, rowHolds_extentRow]
  refine forall₂_congr fun p _ => ?_
  simp [Box.width, Box.height, boxAt]

theorem mem_activeConstraints_iff (ha : Allocation.ofRoot d root = .ok a) {name : String} {k : Constraint} :
    (name, k) ∈ activeConstraints d a ↔
      ∃ c cell, d.Active root c ∧ d.cell? c = some cell ∧ k ∈ cell.constraints ∧ cell.name = name := by
  simp only [activeConstraints, List.mem_flatMap]
  constructor
  · rintro ⟨c, hc, hk⟩
    cases hcell : d.cell? c with
    | none => simp [hcell] at hk
    | some cell =>
      simp only [hcell, List.mem_map, Prod.mk.injEq] at hk
      obtain ⟨k, hk, rfl, rfl⟩ := hk
      exact ⟨c, cell, (Allocation.mem_cells_iff ha).mp hc, hcell, hk, rfl⟩
  · rintro ⟨c, cell, hc, hcell, hk, rfl⟩
    refine ⟨c, (Allocation.mem_cells_iff ha).mpr hc, ?_⟩
    rw [hcell]
    exact List.mem_map_of_mem hk

theorem contains_mentioned_iff (ha : Allocation.ofRoot d root = .ok a) {n : Node} :
    (mentioned d a).contains n ↔ d.Names root n := by
  simp only [mentioned, List.contains_iff_mem, List.mem_flatMap, Prod.exists, mem_activeConstraints_iff ha,
    List.mem_cons, Option.mem_toList, Design.Names]
  constructor
  · rintro ⟨name, k, ⟨c, cell, hc, hcell, hk, -⟩, hn⟩
    exact ⟨c, cell, hc, hcell, k, hk, hn.imp_left Eq.symm⟩
  · rintro ⟨c, cell, hc, hcell, k, hk, hn⟩
    exact ⟨cell.name, k, ⟨c, cell, hc, hcell, hk, rfl⟩, hn.imp_left Eq.symm⟩

theorem defaultSizes_iff (hd : d.WellFormed) (ha : Allocation.ofRoot d root = .ok a) :
    (∀ r ∈ defaultSizes d a config (mentioned d a), RowHolds t x r) ↔
      ∀ p, .polygon p ∈ d.solved root → ¬ d.Names root (.polygon p) → ∃ b, a.read d x (.polygon p) = some b ∧
        0 ≤ b.x1 + t ∧ 0 ≤ b.y1 + t ∧ config.defaultMinSize ≤ b.width + t ∧ config.defaultMinSize ≤ b.height + t := by
  have hrow : ∀ (i : Nat) (label : String),
      RowHolds t x (.inequality, .ofTerms [(i, 1)] 0 label) ↔ 0 ≤ valueAt x i + t := by
    intro i label
    simp only [RowHolds, RowKind.HoldsWithin, Row.eval_ofTerms, Row.termsAt_cons, Row.termsAt_nil]
    show -t ≤ 1 * _ + 0 + 0 ↔ _
    constructor <;> intro h <;> linarith
  have hbases : (∀ r ∈ defaultSizes d a config (mentioned d a), RowHolds t x r) ↔ ∀ n ∈ d.solved root,
      ∃ b, a.read d x n = some b ∧ ∀ p, n = .polygon p → ¬ d.Names root n →
        0 ≤ b.x1 + t ∧ 0 ≤ b.y1 + t ∧ config.defaultMinSize ≤ b.width + t ∧ config.defaultMinSize ≤ b.height + t := by
    rw [← forall_bases_iff hd ha, defaultSizes, List.forall_mem_flatMap]
    refine forall₂_congr fun m _ => ?_
    obtain ⟨n, b⟩ := m
    cases n with
    | cell c => simp
    | inst i => simp
    | polygon p =>
      dsimp only
      by_cases hnames : d.Names root (.polygon p)
      · rw [if_pos ((contains_mentioned_iff ha).mpr hnames)]
        simp [hnames]
      · rw [if_neg (mt (contains_mentioned_iff ha).mp hnames)]
        simp only [List.forall_mem_cons, hrow, rowHolds_extentRow]
        simp [hnames, boxAt, Box.width, Box.height]
  rw [hbases]
  constructor
  · intro h p hp hnames
    obtain ⟨b, hb, hrest⟩ := h (.polygon p) hp
    exact ⟨b, hb, hrest p rfl hnames⟩
  · intro h n hn
    by_cases hp : ∃ p, n = .polygon p ∧ ¬ d.Names root n
    · obtain ⟨p, rfl, hnames⟩ := hp
      obtain ⟨b, hb, hrest⟩ := h p hn hnames
      exact ⟨b, hb, fun _ _ _ => hrest⟩
    · obtain ⟨b, hb⟩ := exists_read ha x hn
      exact ⟨b, hb, fun p hpn hnames => absurd ⟨p, hpn, hnames⟩ hp⟩

theorem containment_iff (ha : Allocation.ofRoot d root = .ok a) {c : CellId} (hc : d.Active root c) :
    (∀ r ∈ containment d a c, RowHolds t x r) ↔ ∀ n ∈ d.children c, ∃ outer inner,
      a.read d x (.cell c) = some outer ∧ a.read d x n = some inner ∧ outer.x1 ≤ inner.x1 + t ∧
        outer.y1 ≤ inner.y1 + t ∧ inner.x2 ≤ outer.x2 + t ∧ inner.y2 ≤ outer.y2 + t := by
  obtain ⟨outer, houter⟩ := exists_operands ha (Design.cell_mem_solved_iff.mpr hc)
  simp only [containment, houter, List.forall_mem_flatMap, read_eq_map_operands, Option.map_some, Option.some.injEq]
  refine forall₂_congr fun n hn => ?_
  obtain ⟨inner, hinner⟩ := exists_operands ha (hc.child_mem_solved hn)
  simp only [hinner, List.map_cons, List.map_nil, List.forall_mem_cons, rowHolds_difference, Option.map_some,
    Option.some.injEq, List.not_mem_nil, false_implies, implies_true, and_true]
  constructor
  · exact fun h => ⟨_, _, rfl, rfl, h⟩
  · rintro ⟨_, _, rfl, rfl, h⟩
    exact h

/-- The template of a solved instance is read as a solved cell if it is one, and else is frozen and has its box. -/
theorem read_template (hd : d.WellFormed) (ha : Allocation.ofRoot d root = .ok a) {i : InstanceId}
    (hi : .inst i ∈ d.solved root) {inst : Instance Rat} (hinst : d.instance? i = some inst) :
    ∃ o, templateOperands? d a inst.template = some o ∧
      a.read d x (.cell inst.template) = some (o.map (Operand.value x)) := by
  unfold templateOperands? Allocation.read
  cases hb : a.base? (.cell inst.template) with
  | some base => exact ⟨Allocation.unknowns base, rfl, rfl⟩
  | none =>
    have hi := (Allocation.mem_nodes_iff ha).mpr hi
    have hnot : ¬ d.isActive inst.template := fun hactive =>
      Allocation.base?_eq_none_iff.mp hb (Allocation.template_mem_nodes ha hi hinst hactive)
    obtain ⟨cell, hcell⟩ := Option.isSome_iff_exists.mp (hd.isSome_template i inst hinst)
    obtain ⟨b, hfrozen⟩ : ∃ b, cell.frozen = some b := by
      cases hf : cell.frozen with
      | none => exact absurd (Design.isActive_iff.mpr ⟨cell, hcell, hf⟩) hnot
      | some b => exact ⟨b, rfl⟩
    have hcontent : d.contentBox? inst.template = some b := by
      rw [Design.contentBox?_of_not_active hnot, hcell]
      exact hfrozen
    have hbox : d.box? (.cell inst.template) = some b := by simp [Design.box?, hcell, hfrozen]
    exact ⟨b.map .fixed, by simp only [hcontent, Option.map_some], hbox⟩

theorem instanceSizes_iff (hd : d.WellFormed) (ha : Allocation.ofRoot d root = .ok a) :
    (∀ r ∈ instanceSizes d a, RowHolds t x r) ↔ ∀ i inst, .inst i ∈ d.solved root → d.instance? i = some inst →
      ∃ own drawn, a.read d x (.inst i) = some own ∧ a.read d x (.cell inst.template) = some drawn ∧
        |own.width - drawn.width| ≤ t ∧ |own.height - drawn.height| ≤ t := by
  rw [instanceSizes, List.forall_mem_flatMap]
  constructor
  · intro h i inst hi hinst
    have h := h (.inst i) ((Allocation.mem_nodes_iff ha).mpr hi)
    obtain ⟨own, hown⟩ := exists_operands ha hi
    obtain ⟨drawn, hdrawn, hread⟩ := read_template (x := x) hd ha hi hinst
    simp only [hinst, hown, hdrawn, List.forall_mem_cons, rowHolds_extentDifference] at h
    exact ⟨own.map (Operand.value x), _, by rw [read_eq_map_operands, hown]; rfl, hread, h.1, h.2.1⟩
  · intro h n hn
    cases n with
    | cell c => simp
    | polygon p => simp
    | inst i =>
      have hi := (Allocation.mem_nodes_iff ha).mp hn
      cases hinst : d.instance? i with
      | none => simp [hinst]
      | some inst =>
        obtain ⟨own, hown⟩ := exists_operands ha hi
        obtain ⟨drawn, hdrawn, hread⟩ := read_template (x := x) hd ha hi hinst
        obtain ⟨b, b', hb, hb', hwidth, hheight⟩ := h i inst hi hinst
        rw [read_eq_map_operands, hown] at hb
        rw [hread] at hb'
        cases hb
        cases hb'
        simp only [hinst, hown, hdrawn, List.forall_mem_cons, rowHolds_extentDifference]
        exact ⟨hwidth, hheight, fun r hr => absurd hr List.not_mem_nil⟩

theorem clauseRows_iff (ha : Allocation.ofRoot d root = .ok a) {lists : List (List (RowKind × Row Rat))}
    (h : (activeConstraints d a).mapM (fun (name, k) => constraintRows d a name k) = .ok lists) :
    (∀ r ∈ lists.flatten, RowHolds t x r) ↔ ∀ c cell, d.Active root c → d.cell? c = some cell →
      ∀ k ∈ cell.constraints, ∃ clauses, Clause.parseAll k.clause k.object.isSome = .ok clauses ∧
        ∀ clause ∈ clauses, clause.HoldsWithin t (k.boxes (a.read d x)) := by
  have hlists := forall_mem_iff_of_mapM h (P := fun rows => ∀ r ∈ rows, RowHolds t x r)
  have hflatten : (∀ r ∈ lists.flatten, RowHolds t x r) ↔ ∀ rows ∈ lists, ∀ r ∈ rows, RowHolds t x r := by
    simp only [List.mem_flatten, forall_exists_index, and_imp]
    exact ⟨fun h rows hrows r hr => h r rows hrows hr, fun h r rows hrows hr => h rows hrows r hr⟩
  rw [hflatten, hlists]
  constructor
  · intro h c cell hc hcell k hk
    obtain ⟨rows, hrows, hall⟩ := h (cell.name, k) ((mem_activeConstraints_iff ha).mpr ⟨c, cell, hc, hcell, hk, rfl⟩)
    exact (constraintRows_iff hrows).mp hall
  · rintro hall ⟨name, k⟩ hk
    obtain ⟨c, cell, hc, hcell, hkc, rfl⟩ := (mem_activeConstraints_iff ha).mp hk
    obtain ⟨rows, hrows, -⟩ := (forall_mem_iff_of_mapM h (P := fun _ => True)).mp (fun _ _ => trivial) _ hk
    exact ⟨rows, hrows, (constraintRows_iff hrows).mpr (hall c cell hc hcell k hkc)⟩

/-- All rows hold at a point exactly if its boxes are wanted. -/
theorem rows_iff_meets (hd : d.WellFormed) (ha : Allocation.ofRoot d root = .ok a) {all : List (RowKind × Row Rat)}
    (h : Compiled.rows d a config = .ok all) : (∀ r ∈ all, RowHolds t x r) ↔ d.Meets root config t (a.read d x) := by
  obtain ⟨lists, hlists, h⟩ := bind_eq_ok_iff.mp h
  cases h
  have hdefaults : (∀ r ∈ if config.defaultSizing then defaultSizes d a config (mentioned d a) else [],
      RowHolds t x r) ↔ (config.defaultSizing → ∀ r ∈ defaultSizes d a config (mentioned d a), RowHolds t x r) := by
    cases config.defaultSizing <;> simp
  have hinside : (∀ r ∈ a.cells.flatMap (containment d a), RowHolds t x r) ↔
      ∀ c, d.Active root c → ∀ r ∈ containment d a c, RowHolds t x r := by
    simp only [List.forall_mem_flatMap, Allocation.mem_cells_iff ha]
  simp only [List.forall_mem_append, validity_iff hd ha, clauseRows_iff ha hlists, hdefaults, defaultSizes_iff hd ha,
    hinside, instanceSizes_iff hd ha]
  constructor
  · rintro ⟨⟨⟨⟨hextents, hclauses⟩, hdefaults⟩, hinside⟩, hsizes⟩
    exact ⟨hextents, hdefaults, fun c hc => (containment_iff ha hc).mp (hinside c hc), hsizes, hclauses⟩
  · intro h
    exact ⟨⟨⟨⟨h.extents, h.clauses⟩, h.defaults⟩, fun c hc => (containment_iff ha hc).mpr (h.inside c hc)⟩, h.sizes⟩

end Compiled

/-- A compiled problem has no infeasible row and is satisfied at a point within the tolerance exactly if the boxes that
the point gives to the nodes are wanted. -/
theorem compiled_iff_meets {d : Design Rat} {a : Allocation} {root : CellId} {config : SolveConfig Rat}
    {c : Compiled Rat} (hd : d.WellFormed) (ha : Allocation.ofRoot d root = .ok a) (hc : compile d a config = .ok c)
    (ht : 0 ≤ config.correction.tolerance) (x : Array Rat) :
    (c.infeasible = [] ∧ c.problem.isSatisfied x config.correction.tolerance) ↔
      d.Meets root config config.correction.tolerance (a.read d x) := by
  obtain ⟨all, hall, rfl⟩ := Compiled.exists_rows_of_compile hc
  rw [Compiled.satisfied_ofRows_iff ht, Compiled.rows_iff_meets hd ha hall]

theorem compiled_iff_meets_viaPair : ∃ c, Allocation.ofRoot (Design.empty.run viaPair) ⟨1⟩ =
      .ok ⟨[.cell ⟨1⟩, .polygon ⟨1⟩, .inst ⟨0⟩, .inst ⟨1⟩], [⟨1⟩]⟩ ∧
    compile (Design.empty.run viaPair) ⟨[.cell ⟨1⟩, .polygon ⟨1⟩, .inst ⟨0⟩, .inst ⟨1⟩], [⟨1⟩]⟩ .standard = .ok c ∧
    c.problem.isSatisfied #[30, 29, 38, 31, 30, 30, 38, 31, 33, 29, 35, 31, 36, 29, 38, 31] (1 / 1000000) ∧
    (Design.empty.run viaPair).Meets ⟨1⟩ .standard (1 / 1000000)
      (Allocation.read ⟨[.cell ⟨1⟩, .polygon ⟨1⟩, .inst ⟨0⟩, .inst ⟨1⟩], [⟨1⟩]⟩ (Design.empty.run viaPair)
        #[30, 29, 38, 31, 30, 30, 38, 31, 33, 29, 35, 31, 36, 29, 38, 31]) := by
  have hd : (Design.empty.run viaPair).WellFormed := Design.Reachable.wellFormed ⟨viaPair, rfl⟩
  have ha : Allocation.ofRoot (Design.empty.run viaPair) ⟨1⟩ =
      .ok ⟨[.cell ⟨1⟩, .polygon ⟨1⟩, .inst ⟨0⟩, .inst ⟨1⟩], [⟨1⟩]⟩ := by decide +kernel
  have hc : (compile (Design.empty.run viaPair) ⟨[.cell ⟨1⟩, .polygon ⟨1⟩, .inst ⟨0⟩, .inst ⟨1⟩], [⟨1⟩]⟩
      .standard).map (fun c => (c.infeasible, c.problem.isSatisfied
        #[30, 29, 38, 31, 30, 30, 38, 31, 33, 29, 35, 31, 36, 29, 38, 31] (1 / 1000000))) = .ok ([], true) := by
    decide +kernel
  cases h : compile (Design.empty.run viaPair) ⟨[.cell ⟨1⟩, .polygon ⟨1⟩, .inst ⟨0⟩, .inst ⟨1⟩], [⟨1⟩]⟩ .standard with
  | error e =>
    rw [h] at hc
    cases hc
  | ok c =>
    rw [h] at hc
    simp only [Except.map, Except.ok.injEq, Prod.mk.injEq] at hc
    have ht : (0 : Rat) ≤ (SolveConfig.standard : SolveConfig Rat).correction.tolerance := by decide +kernel
    exact ⟨c, ha, rfl, hc.2, (compiled_iff_meets hd ha h ht _).mp hc⟩

end RectLayout
