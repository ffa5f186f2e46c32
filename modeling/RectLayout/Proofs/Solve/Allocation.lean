import RectLayout.Proofs.Design.Propagate
import RectLayout.Proofs.Design.WellFormed
import RectLayout.Solve.Pipeline

/-!
# What an allocation lists and what a solve writes

The allocation of a root lists the nodes of a solve (`mem_nodes_iff`), each once (`nodup_nodes`). Writing the boxes
that a point gives to them leaves each of them with its own box at that point and all others as they were
(`stored_writeBoxes`), whatever the boxes were before: designs that differ in nothing but boxes of listed nodes become
equal (`AgreeOutside.writeBoxes_eq`).
-/

namespace RectLayout

variable {α : Type} {d e : Design α} {root : CellId} {a : Allocation}

/-! ## The nodes of an allocation -/

namespace Allocation

theorem ofRoot_eq (h : d.isActive root) : ofRoot d root =
    .ok ⟨(d.activeCells root).flatMap fun c => .cell c :: d.children c, d.activeCells root⟩ := by
  obtain ⟨cell, hcell, hfrozen⟩ := Design.isActive_iff.mp h
  simp [ofRoot, Design.getUnfrozen, Design.getCell, hcell, Cell.isFrozen, hfrozen, bind, Except.bind, pure, Except.pure]

/-- A root is allocated exactly if it exists and is not frozen. -/
theorem isActive_of_ofRoot (h : ofRoot d root = .ok a) : d.isActive root := by
  cases hcell : d.cell? root with
  | none => simp [ofRoot, Design.getUnfrozen, Design.getCell, hcell, bind, Except.bind] at h
  | some cell =>
    by_cases hf : cell.isFrozen
    · simp [ofRoot, Design.getUnfrozen, Design.getCell, hcell, hf, bind, Except.bind] at h
    · simp [Design.isActive, hcell, hf]

theorem eq_of_ofRoot (h : ofRoot d root = .ok a) :
    a = ⟨(d.activeCells root).flatMap fun c => .cell c :: d.children c, d.activeCells root⟩ := by
  rw [ofRoot_eq (isActive_of_ofRoot h)] at h
  exact (Except.ok.inj h).symm

theorem mem_cells_iff (h : ofRoot d root = .ok a) {c : CellId} : c ∈ a.cells ↔ d.Active root c := by
  rw [eq_of_ofRoot h]
  exact Design.mem_activeCells_iff

/-- The listed nodes are the active cells and their children. -/
theorem mem_nodes_iff (h : ofRoot d root = .ok a) {n : Node} : n ∈ a.nodes ↔ n ∈ d.solved root := by
  rw [eq_of_ofRoot h]
  simp only [List.mem_flatMap, List.mem_cons, Design.mem_activeCells_iff]
  exact Iff.rfl

/-- The template of a listed instance is listed too if it is active. -/
theorem template_mem_nodes (h : ofRoot d root = .ok a) {i : InstanceId} (hi : .inst i ∈ a.nodes) {inst : Instance α}
    (hinst : d.instance? i = some inst) (hactive : d.isActive inst.template) : .cell inst.template ∈ a.nodes := by
  obtain ⟨c, hc, ht⟩ := Design.exists_active_of_solved ((mem_nodes_iff h).mp hi) hinst
  exact (mem_nodes_iff h).mpr (Design.cell_mem_solved_iff.mpr (hc.template ht hactive))

theorem base?_eq_none_iff {n : Node} : a.base? n = none ↔ n ∉ a.nodes := by
  simp [base?]

theorem isSome_base?_iff {n : Node} : (a.base? n).isSome ↔ n ∈ a.nodes := by
  rw [Option.isSome_iff_ne_none, ne_eq, base?_eq_none_iff, not_not]

/-- No node is listed twice: a child has one owner, and each active cell is visited once. -/
theorem nodup_nodes (hd : d.WellFormed) (h : ofRoot d root = .ok a) : a.nodes.Nodup := by
  rw [eq_of_ofRoot h, List.nodup_flatMap]
  refine ⟨fun c _ => ?_, (d.nodup_activeCells root).imp fun {c k} hck => ?_⟩
  · exact List.nodup_cons.mpr ⟨fun hc => Design.cell_ne_of_mem_children hc c rfl, hd.nodup_children c⟩
  · rintro n hn hn'
    rcases List.mem_cons.mp hn with rfl | hc
    · rcases List.mem_cons.mp hn' with h | hk
      · exact hck (Node.cell.inj h)
      · exact Design.cell_ne_of_mem_children hk c rfl
    · rcases List.mem_cons.mp hn' with rfl | hk
      · exact Design.cell_ne_of_mem_children hc k rfl
      · exact hck (hd.eq_of_mem_children hc hk)

/-! ## The unknowns of the nodes -/

/-- If no node is listed twice, the unknowns of a node are where it is listed. -/
theorem base?_eq_some_iff (h : a.nodes.Nodup) {n : Node} {b : Nat} :
    a.base? n = some b ↔ ∃ k, a.nodes[k]? = some n ∧ k * 4 = b := by
  rw [base?, Option.map_eq_some_iff]
  refine exists_congr fun k => and_congr_left fun _ => ?_
  rw [List.idxOf?_eq_some_iff, List.getElem?_eq_some_iff]
  refine exists_congr fun hk => ⟨fun hn => hn.1, fun hn => ⟨hn, fun j hj hjn => ?_⟩⟩
  have := h.getElem_inj_iff.mp (hjn.trans hn.symm)
  omega

/-- If no node is listed twice, `bases` is the graph of `base?`. -/
theorem mem_bases_iff (h : a.nodes.Nodup) {n : Node} {b : Nat} : (n, b) ∈ a.bases ↔ a.base? n = some b := by
  simp only [bases, List.mem_map, Prod.exists, Prod.mk.injEq, List.mk_mem_zipIdx_iff_getElem?, base?_eq_some_iff h]
  constructor
  · rintro ⟨m, k, hk, rfl, hb⟩
    exact ⟨k, hk, hb⟩
  · rintro ⟨k, hk, hb⟩
    exact ⟨n, k, hk, rfl, hb⟩

theorem lt_numVars_of_base? {n : Node} {b : Nat} (h : a.base? n = some b) : b + 3 < a.numVars := by
  obtain ⟨k, hk, rfl⟩ := Option.map_eq_some_iff.mp h
  obtain ⟨hlt, -⟩ := List.idxOf?_eq_some_iff.mp hk
  rw [numVars]
  omega

/-- A listed node owns four unknowns. -/
theorem exists_base {n : Node} (hn : n ∈ a.nodes) : ∃ base, a.base? n = some base ∧ base + 3 < a.numVars := by
  obtain ⟨base, hbase⟩ := Option.isSome_iff_exists.mp (isSome_base?_iff.mpr hn)
  exact ⟨base, hbase, lt_numVars_of_base? hbase⟩

end Allocation

/-! ## Writing boxes -/

namespace Design

variable [Scalar α]

/-- Writing changes no boxes but those of listed nodes. -/
theorem agreeOutside_writeBoxes (d : Design α) (a : Allocation) (x : Array α) :
    AgreeOutside {n | n ∈ a.nodes} d (d.writeBoxes a x) := by
  refine agreeOutside_foldl fun n hn e _ => ?_
  split
  · exact agreeOutside_writeBox hn e _
  · exact .refl _ e

/-- Writing gives every listed node its box at the point. -/
theorem stored_writeBoxes (d : Design α) (a : Allocation) (x : Array α) {n : Node} (hn : n ∈ a.nodes)
    (hlive : (d.owner? n).isSome) : (d.writeBoxes a x).stored? n = a.boxOf? n x := by
  have hbox : (a.boxOf? n x).isSome := by simpa [Allocation.boxOf?] using Allocation.isSome_base?_iff.mpr hn
  obtain ⟨box, hbox⟩ := Option.isSome_iff_exists.mp hbox
  have h : n ∈ a.nodes ∨ d.stored? n = some box := .inl hn
  clear hn
  rw [hbox]
  unfold writeBoxes
  -- after the writes of a list of nodes, `n` has its box if it is one of them, and else it has what it had
  generalize a.nodes = l at h
  induction l generalizing d with
  | nil => simpa using h
  | cons m l ih =>
    rw [List.foldl_cons]
    apply ih
    · split
      · rwa [← (agreeOutside_writeBox (Set.mem_singleton m) d _).owner]
      · exact hlive
    · by_cases hm : m = n
      · subst hm
        rw [hbox]
        exact .inr (by simp [stored?_writeBox, hlive])
      · rcases h with h | h
        · exact (List.mem_cons.mp h).elim (fun h => absurd h.symm hm) .inl
        · refine .inr ?_
          split
          · simpa [stored?_writeBox, hm] using h
          · exact h

omit [Scalar α] in
/-- A node that is no frozen cell has the box that is stored with it. -/
theorem box?_eq_stored? {n : Node} (h : ∀ c, n = .cell c → d.isActive c) : d.box? n = d.stored? n := by
  cases n with
  | cell c =>
    obtain ⟨cell, hcell, hfrozen⟩ := isActive_iff.mp (h c rfl)
    simp [box?, stored?, hcell, hfrozen]
  | polygon p => rfl
  | inst i => rfl

omit [Scalar α] in
/-- A node that is solved for exists. -/
theorem WellFormed.isSome_owner_of_solved (hd : d.WellFormed) {n : Node} (hn : n ∈ d.solved root) :
    (d.owner? n).isSome := by
  obtain ⟨c, hc, rfl | hchild⟩ := hn
  · obtain ⟨cell, hcell, -⟩ := hc.cell
    rw [isSome_owner_cell_iff, hcell]
    rfl
  · rw [((hd.mem_children_iff n c).mp hchild).1]
    rfl

/-- Writing makes the boxes of the listed nodes the ones that the point gives to them. -/
theorem box_writeBoxes_of_mem (hd : d.WellFormed) (ha : Allocation.ofRoot d root = .ok a) (x : Array α) {n : Node}
    (hn : n ∈ a.nodes) : (d.writeBoxes a x).box? n = a.boxOf? n x := by
  have hsolved := (Allocation.mem_nodes_iff ha).mp hn
  rw [box?_eq_stored?, stored_writeBoxes d a x hn (hd.isSome_owner_of_solved hsolved)]
  rintro c rfl
  rw [← (agreeOutside_writeBoxes d a x).isActive]
  exact (cell_mem_solved_iff.mp hsolved).isActive

theorem AgreeOutside.writeBoxes_eq (h : AgreeOutside {n | n ∈ a.nodes} d e) (x : Array α) :
    d.writeBoxes a x = e.writeBoxes a x := by
  refine AgreeOutside.eq ?_
  have hde := ((agreeOutside_writeBoxes d a x).symm.trans h).trans (agreeOutside_writeBoxes e a x)
  refine ⟨hde.cell, hde.polygon, hde.inst, fun n _ => ?_⟩
  by_cases hn : n ∈ a.nodes
  · cases hlive : d.owner? n with
    | some c =>
      rw [stored_writeBoxes d a x hn (by simp [hlive]), stored_writeBoxes e a x hn (by simp [← h.owner, hlive])]
    | none =>
      -- a node that does not exist has no box in any of the designs
      have hstored : ∀ f : Design α, f.owner? n = none → f.stored? n = none := by
        intro f hf
        cases n <;> simp_all [owner?, stored?]
      have hlive' : (d.writeBoxes a x).owner? n = none := by rw [← (agreeOutside_writeBoxes d a x).owner, hlive]
      rw [hstored _ hlive', hstored _ (by rw [← hde.owner, hlive'])]
  · exact hde.stored n hn

end Design

end RectLayout
