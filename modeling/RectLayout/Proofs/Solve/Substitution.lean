import RectLayout.Proofs.Frozen
import RectLayout.Proofs.Solve.Compile

/-!
# Freezing a template is substitution

Freezing an active template takes its nodes, and those of what it alone draws, out of a solve; their boxes are then read
from the design. If nothing else draws the cells below the template (`Design.Enclosed`), the active cells of the design
are those of the frozen design and those of the template (`active_freeze_iff`), and so are the nodes
(`mem_solved_freeze_iff`). Without default sizes a solve wants something of each active cell on its own
(`meets_iff_forall_meetsIn`), so what is wanted of the whole is what is wanted of both parts (`meets_freeze_iff`). A
point of the frozen design extended by the boxes of the template reads as that point does (`read_freeze`), so it
satisfies the rows of the design exactly if the point satisfies those of the frozen design and the boxes those of the
template (`satisfied_freeze_iff`).
-/

namespace RectLayout

/-! ## Points of given boxes -/

namespace Allocation

variable {d : Design Rat} {a : Allocation} {n : Node}

/-- The point at which every listed node has a given box. -/
def point (a : Allocation) (box : Node → Box Rat) : Array Rat := (a.nodes.flatMap fun n => (box n).toList).toArray

theorem size_point (a : Allocation) (box : Node → Box Rat) : (a.point box).size = a.numVars := by
  simp [point, numVars, List.length_flatMap, Box.toList, List.map_const']

theorem getElem?_flatMap_toList (box : Node → Box Rat) (nodes : List Node) (k : Nat) {j : Nat} (hj : j < 4) :
    (nodes.flatMap fun n => (box n).toList)[k * 4 + j]? = nodes[k]?.bind fun n => (box n).toList[j]? := by
  induction nodes generalizing k with
  | nil => rfl
  | cons m nodes ih =>
    have hlength : (box m).toList.length = 4 := rfl
    rw [List.flatMap_cons]
    cases k with
    | zero => rw [Nat.zero_mul, Nat.zero_add, List.getElem?_append_left (by omega)]; rfl
    | succ k =>
      rw [List.getElem?_append_right (by omega), hlength, show (k + 1) * 4 + j - 4 = k * 4 + j by omega, ih]
      rfl

/-- A listed node has its box at the point that was made from it. -/
theorem read_point (d : Design Rat) (box : Node → Box Rat) (hn : n ∈ a.nodes) :
    a.read d (a.point box) n = some (box n) := by
  obtain ⟨k, hk⟩ := Option.isSome_iff_exists.mp (List.isSome_idxOf?.mpr hn)
  have hnode : a.nodes[k]? = some n := by
    obtain ⟨hlt, heq, -⟩ := List.idxOf?_eq_some_iff.mp hk
    rw [List.getElem?_eq_getElem hlt, heq]
  have hvalue : ∀ j < 4, valueAt (a.point box) (k * 4 + j) = ((box n).toList[j]?).getD 0 := by
    intro j hj
    rw [valueAt, Array.getD_eq_getD_getElem?, point, List.getElem?_toArray, getElem?_flatMap_toList box a.nodes k hj,
      hnode]
    rfl
  have hbase : a.base? n = some (k * 4) := by rw [base?, hk]; rfl
  simp only [read, hbase, boxAt, Option.some.injEq]
  have h0 := hvalue 0 (by omega)
  have h1 := hvalue 1 (by omega)
  have h2 := hvalue 2 (by omega)
  have h3 := hvalue 3 (by omega)
  rw [Nat.add_zero] at h0
  rw [h0, h1, h2, h3]
  rfl

/-- A node that is not listed has its box in the design. -/
theorem read_of_not_mem (hn : n ∉ a.nodes) (x : Array Rat) : a.read d x n = d.box? n := by
  rw [read, base?_eq_none_iff.mpr hn]

end Allocation

namespace Design

open Walk

variable {d d' : Design Rat} {root T c k : CellId} {n : Node} {b : Box Rat} {config : SolveConfig Rat} {t : Rat}
  {box box' : Node → Option (Box Rat)}

/-! ## What a solve reads -/

/-- The nodes of whose boxes a solve wants something: those it solves for, the templates of instances among them, and
those that a constraint names. -/
def wanted (d : Design Rat) (root : CellId) : Set Node :=
  {n | n ∈ d.solved root ∨ d.Names root n ∨
    ∃ i inst, .inst i ∈ d.solved root ∧ d.instance? i = some inst ∧ n = .cell inst.template}

theorem Meets.congr (h : d.Meets root config t box) (hbox : ∀ n ∈ d.wanted root, box n = box' n) :
    d.Meets root config t box' where
  extents n hn := by
    rw [← hbox n (.inl hn)]
    exact h.extents n hn
  defaults hsizing p hp hnames := by
    rw [← hbox _ (.inl hp)]
    exact h.defaults hsizing p hp hnames
  inside c hc n hn := by
    rw [← hbox _ (.inl (cell_mem_solved_iff.mpr hc)), ← hbox n (.inl (hc.child_mem_solved hn))]
    exact h.inside c hc n hn
  sizes i inst hi hinst := by
    rw [← hbox _ (.inl hi), ← hbox (.cell inst.template) (.inr (.inr ⟨i, inst, hi, hinst, rfl⟩))]
    exact h.sizes i inst hi hinst
  clauses c cell hc hcell k hk := by
    have hnamed : ∀ n, k.subject = n ∨ k.object = some n → box n = box' n :=
      fun n hn => hbox n (.inr (.inl ⟨c, cell, hc, hcell, k, hk, hn⟩))
    have hboxes : k.boxes box' = k.boxes box := by
      funext role
      cases role with
      | subject => exact (hnamed _ (.inl rfl)).symm
      | object =>
        cases ho : k.object with
        | none => simp [Constraint.boxes, Constraint.node?, ho]
        | some n => simp [Constraint.boxes, Constraint.node?, ho, hnamed n (.inr ho)]
    rw [hboxes]
    exact h.clauses c cell hc hcell k hk

/-! ## The wants of one cell -/

/-- What a solve wants of the boxes of an active cell and its objects, up to `t` and default sizes apart. -/
structure MeetsIn (d : Design Rat) (c : CellId) (config : SolveConfig Rat) (t : Rat)
    (box : Node → Option (Box Rat)) : Prop where
  extents : ∀ n, n = .cell c ∨ n ∈ d.children c →
    ∃ b, box n = some b ∧ config.epsilon ≤ b.width + t ∧ config.epsilon ≤ b.height + t
  inside : ∀ n ∈ d.children c, ∃ outer inner, box (.cell c) = some outer ∧ box n = some inner ∧
    outer.x1 ≤ inner.x1 + t ∧ outer.y1 ≤ inner.y1 + t ∧ inner.x2 ≤ outer.x2 + t ∧ inner.y2 ≤ outer.y2 + t
  sizes : ∀ i inst, .inst i ∈ d.children c → d.instance? i = some inst →
    ∃ own drawn, box (.inst i) = some own ∧ box (.cell inst.template) = some drawn ∧
      |own.width - drawn.width| ≤ t ∧ |own.height - drawn.height| ≤ t
  clauses : ∀ cell, d.cell? c = some cell → ∀ k ∈ cell.constraints,
    ∃ clauses, Clause.parseAll k.clause k.object.isSome = .ok clauses ∧
      ∀ clause ∈ clauses, clause.HoldsWithin t (k.boxes box)

/-- Without default sizes, the wants of a solve are those of its active cells. -/
theorem meets_iff_forall_meetsIn (hsizing : config.defaultSizing = false) :
    d.Meets root config t box ↔ ∀ c, d.Active root c → d.MeetsIn c config t box := by
  constructor
  · intro h c hc
    refine ⟨fun n hn => h.extents n ⟨c, hc, hn⟩, h.inside c hc, fun i inst hi => ?_, fun cell => h.clauses c cell hc⟩
    exact h.sizes i inst (hc.child_mem_solved hi)
  · refine fun h => ⟨?_, fun hon => ?_, fun c hc => (h c hc).inside, ?_, fun c cell hc => (h c hc).clauses cell⟩
    · rintro n ⟨c, hc, hn⟩
      exact (h c hc).extents n hn
    · rw [hsizing] at hon
      cases hon
    · rintro i inst ⟨c, hc, hi | hi⟩ hinst
      · cases hi
      · exact (h c hc).sizes i inst hi hinst

/-- A cell that is the same in another design wants the same there. -/
theorem MeetsIn.of_sameContent (h : d.MeetsIn c config t box) (hsame : SameContent c d d') :
    d'.MeetsIn c config t box where
  extents n hn := by
    rw [hsame.children] at hn
    exact h.extents n hn
  inside n hn := by
    rw [hsame.children] at hn
    exact h.inside n hn
  sizes i inst hi hinst := by
    rw [hsame.children] at hi
    rw [hsame.inst i hi] at hinst
    exact h.sizes i inst hi hinst
  clauses cell hcell := by
    rw [hsame.cell] at hcell
    exact h.clauses cell hcell

/-! ## The part below a template -/

theorem Active.trans (h : d.Active root T) (h' : d.Active T c) : d.Active root c := ⟨h.1, h.2.trans h'.2⟩

theorem Active.reaches (h : d.Active root c) : Reaches d.templates root c :=
  Relation.ReflTransGen.mono (fun _ _ he => (mem_activeTemplates_iff.mp he).1) root c h.2

theorem Active.solved_subset (h : d.Active root T) : d.solved T ⊆ d.solved root := by
  rintro n ⟨c, hc, hn⟩
  exact ⟨c, h.trans hc, hn⟩

/-- A cell is not active from what it draws. -/
theorem Active.not_active_symm (h : d.Active root T) (hd : d.WellFormed) (hne : T ≠ root) : ¬ d.Active T root := by
  intro hback
  rcases Relation.ReflTransGen.cases_head h.reaches with heq | ⟨c, hc, hcT⟩
  · exact hne heq.symm
  · exact hd.acyclic root c hc (hcT.trans hback.reaches)

/-- Of the active cells only those of `T` draw a cell below `T`, and their constraints name no other nodes that are
solved for. -/
structure Enclosed (d : Design Rat) (root T : CellId) : Prop where
  drawn : ∀ k c, d.Active root k → c ∈ d.templates k → d.Active T c → c ≠ T → d.Active T k
  named : ∀ n, d.Names T n → n ∈ d.solved root → n ∈ d.solved T

/-- What is wanted from an enclosed template is solved for from it, or not at all. -/
theorem Enclosed.solved_or_not (he : d.Enclosed root T) (hn : n ∈ d.wanted T) : n ∈ d.solved T ∨ n ∉ d.solved root := by
  rcases hn with hn | hn | ⟨i, inst, ⟨k, hk, hi | hi⟩, hinst, rfl⟩
  · exact .inl hn
  · exact (em (n ∈ d.solved root)).imp_left (he.named n hn)
  · cases hi
  · refine (em (d.isActive inst.template)).imp (fun hactive => ?_) fun hnot hroot => ?_
    · have ht : inst.template ∈ d.templates k := mem_templates_iff.mpr ⟨i, inst, hi, hinst, rfl⟩
      exact cell_mem_solved_iff.mpr (hk.template ht hactive)
    · exact hnot (cell_mem_solved_iff.mp hroot).isActive

/-! ## Compilation of the part -/

/-- A constraint compiles if its clauses can be read and its nodes have coordinates. -/
theorem exists_constraintRows {a : Allocation} {cellName : String} {q : Constraint} {clauses : List (Clause Rat)}
    (hclauses : Clause.parseAll q.clause q.object.isSome = .ok clauses)
    (hbound : ∀ n, q.subject = n ∨ q.object = some n → (a.operands? d n).isSome) :
    ∃ rows, Compiled.constraintRows d a cellName q = .ok rows := by
  have hresolve : ∀ n, q.subject = n ∨ q.object = some n → ∃ o, Compiled.resolve d a q.clause n = .ok o := by
    intro n hn
    obtain ⟨o, ho⟩ := Option.isSome_iff_exists.mp (hbound n hn)
    exact ⟨o, by rw [Compiled.resolve, ho]⟩
  have hobject : ∃ o, q.object.mapM (Compiled.resolve d a q.clause) = .ok o := by
    cases hq : q.object with
    | none => exact ⟨none, rfl⟩
    | some n =>
      obtain ⟨o, ho⟩ := hresolve n (.inr hq)
      exact ⟨some o, by rw [Option.mapM_some, ho]; rfl⟩
  obtain ⟨subject, hsubject⟩ := hresolve q.subject (.inl rfl)
  obtain ⟨object, hobject⟩ := hobject
  have hparsed : (Clause.parseAll q.clause q.object.isSome : Except ClauseError (List (Clause Rat))).mapError
      LayoutError.clause = .ok clauses := mapError_eq_ok_iff.mpr hclauses
  rw [Compiled.constraintRows, hparsed]
  exact ⟨_, bind_eq_ok_iff.mpr ⟨_, rfl, bind_eq_ok_iff.mpr ⟨_, hsubject, bind_eq_ok_iff.mpr ⟨_, hobject, rfl⟩⟩⟩⟩

/-- What compiles from a root compiles from a template whose constraints name no other nodes that are solved for. -/
theorem exists_compile_template {a aT : Allocation} {cs : Compiled Rat} (ha : Allocation.ofRoot d root = .ok a)
    (hc : compile d a config = .ok cs) (haT : Allocation.ofRoot d T = .ok aT) (hT : d.Active root T)
    (hnamed : ∀ n, d.Names T n → n ∈ d.solved root → n ∈ d.solved T) : ∃ csT, compile d aT config = .ok csT := by
  obtain ⟨all, hall, -⟩ := Compiled.exists_rows_of_compile hc
  obtain ⟨lists, hlists, -⟩ := bind_eq_ok_iff.mp hall
  have hrows : ∀ q ∈ Compiled.activeConstraints d aT, ∃ rows, Compiled.constraintRows d aT q.1 q.2 = .ok rows := by
    rintro ⟨name, q⟩ hq
    obtain ⟨k, cell, hk, hcell, hqcell, rfl⟩ := (Compiled.mem_activeConstraints_iff haT).mp hq
    have hmem := (Compiled.mem_activeConstraints_iff ha).mpr ⟨k, cell, hT.trans hk, hcell, hqcell, rfl⟩
    obtain ⟨rows, -, hrows⟩ := exists_mem_of_mapM hlists hmem
    obtain ⟨clauses, subject, hclauses, hsubject, hobject, -⟩ := Compiled.constraintRows_ok hrows
    refine exists_constraintRows hclauses fun n hn => ?_
    by_cases hnT : n ∈ d.solved T
    · obtain ⟨o, ho⟩ := Compiled.exists_operands haT hnT
      rw [ho]
      rfl
    · -- the node is not solved for at all, so it has its box in the design both times
      have hnot : n ∉ d.solved root := fun hroot => hnT (hnamed n ⟨k, cell, hk, hcell, q, hqcell, hn⟩ hroot)
      have hbound : (a.operands? d n).isSome := by
        rcases hn with rfl | hn
        · rw [hsubject]
          rfl
        · exact hobject n hn
      rw [← Allocation.mem_nodes_iff ha, ← Allocation.base?_eq_none_iff] at hnot
      rw [← Allocation.mem_nodes_iff haT, ← Allocation.base?_eq_none_iff] at hnT
      rw [Allocation.operands?, hnot] at hbound
      rw [Allocation.operands?, hnT]
      exact hbound
  obtain ⟨listsT, hlistsT⟩ := exists_mapM hrows
  have hallT : ∃ allT, Compiled.rows d aT config = .ok allT := ⟨_, bind_eq_ok_iff.mpr ⟨listsT, hlistsT, rfl⟩⟩
  obtain ⟨allT, hallT⟩ := hallT
  exact ⟨Compiled.ofRows aT config allT, by rw [compile, hallT]; rfl⟩

/-! ## The frozen design -/

theorem mem_templates_freeze_iff (hfreeze : d.freeze T = .ok (d', b)) : k ∈ d'.templates c ↔ k ∈ d.templates c := by
  have hsame := sameStructure_freeze hfreeze
  simp only [mem_templates_iff_map, hsame.children, hsame.template]

section Freeze

variable (hT : d.isActive T) (hfreeze : d.freeze T = .ok (d', b))

include hT hfreeze

theorem eq_of_freeze : d' = d.modifyCell T fun cell => { cell with box := some b, frozen := some b } := by
  obtain ⟨cell, hcell, hfrozen⟩ := isActive_iff.mp hT
  obtain ⟨cell', hcell', ⟨hfrozen', -⟩ | ⟨-, -, -, heq⟩⟩ := freeze_ok hfreeze
  · obtain rfl := Option.some.inj (hcell.symm.trans hcell')
    rw [hfrozen] at hfrozen'
    cases hfrozen'
  · exact heq

theorem box?_freeze_self : d'.box? (.cell T) = some b := by
  obtain ⟨cell, hcell, -⟩ := isActive_iff.mp hT
  simp [eq_of_freeze hT hfreeze, box?, cell?_modifyCell, hcell]

theorem box?_freeze (hn : n ≠ .cell T) : d'.box? n = d.box? n := by
  cases n with
  | cell k =>
    have hsame := sameContent_freeze hfreeze (F := k) fun h => hn (by rw [h])
    rw [box?, box?, hsame.cell]
  | polygon p => rw [eq_of_freeze hT hfreeze]; rfl
  | inst i => rw [eq_of_freeze hT hfreeze]; rfl

theorem isActive_freeze_iff : d'.isActive k ↔ d.isActive k ∧ k ≠ T := by
  by_cases hk : k = T
  · subst hk
    obtain ⟨cell, hcell, -⟩ := isActive_iff.mp hT
    simp [eq_of_freeze hT hfreeze, isActive, cell?_modifyCell, hcell, Cell.isFrozen]
  · rw [isActive, (sameContent_freeze hfreeze (Ne.symm hk)).cell]
    simp [isActive, hk]

end Freeze

/-! ## Two parts of a solve -/

section Parts

variable (hd : d.WellFormed) (hT : d.Active root T) (hne : T ≠ root) (he : d.Enclosed root T)
  (hfreeze : d.freeze T = .ok (d', b))

include hd hT hne he hfreeze

/-- Frozen, a template takes away the cells that are active from it. -/
theorem active_freeze_iff : d'.Active root c ↔ d.Active root c ∧ ¬ d.Active T c := by
  have hactive : ∀ k, d'.isActive k ↔ d.isActive k ∧ k ≠ T := fun _ => isActive_freeze_iff hT.isActive hfreeze
  constructor
  · rintro ⟨-, hr⟩
    induction hr with
    | refl => exact ⟨active_self hT.1, hT.not_active_symm hd hne⟩
    | @tail m k _ hedge ih =>
      obtain ⟨hm, hnot⟩ := ih
      obtain ⟨hk, hkactive⟩ := mem_activeTemplates_iff.mp hedge
      rw [mem_templates_freeze_iff hfreeze] at hk
      obtain ⟨hkactive, hkT⟩ := (hactive k).mp hkactive
      exact ⟨hm.template hk hkactive, fun hTk => hnot (he.drawn m k hm hk hTk hkT)⟩
  · rintro ⟨⟨hroot, hr⟩, hnot⟩
    induction hr with
    | refl => exact active_self ((hactive root).mpr ⟨hroot, hne.symm⟩)
    | @tail m k _ hedge ih =>
      obtain ⟨hk, hkactive⟩ := mem_activeTemplates_iff.mp hedge
      have hkT : k ≠ T := by
        rintro rfl
        exact hnot (active_self hkactive)
      refine (ih fun hm => hnot (hm.template hk hkactive)).template ?_ ((hactive k).mpr ⟨hkactive, hkT⟩)
      exact (mem_templates_freeze_iff hfreeze).mpr hk

/-- Frozen, a template takes away the nodes that are solved for from it. -/
theorem mem_solved_freeze_iff : n ∈ d'.solved root ↔ n ∈ d.solved root ∧ n ∉ d.solved T := by
  have hactive := fun k => active_freeze_iff (c := k) hd hT hne he hfreeze
  have hchildren := (sameStructure_freeze hfreeze).children
  constructor
  · rintro ⟨c, hc, hn⟩
    obtain ⟨hc, hnot⟩ := (hactive c).mp hc
    rw [← hchildren] at hn
    refine ⟨⟨c, hc, hn⟩, ?_⟩
    rintro ⟨k, hk, hnk⟩
    -- the node belongs to one cell only
    have hck : c = k := by
      rcases hn with rfl | hn <;> rcases hnk with hnk | hnk
      · exact Node.cell.inj hnk
      · exact absurd rfl (cell_ne_of_mem_children hnk c)
      · exact absurd hnk (cell_ne_of_mem_children hn k)
      · exact hd.eq_of_mem_children hn hnk
    exact hnot (hck ▸ hk)
  · rintro ⟨⟨c, hc, hn⟩, hnot⟩
    refine ⟨c, (hactive c).mpr ⟨hc, fun hcT => hnot ⟨c, hcT, hn⟩⟩, ?_⟩
    rwa [← hchildren]

/-- The wants of a solve are those of the frozen design and those of the template, if default sizes are off. -/
theorem meets_freeze_iff (hsizing : config.defaultSizing = false) :
    d.Meets root config t box ↔ d'.Meets root config t box ∧ d.Meets T config t box := by
  have hactive := fun k => active_freeze_iff (c := k) hd hT hne he hfreeze
  have hsame : ∀ c, d'.Active root c → SameContent c d d' := fun c hc =>
    sameContent_freeze hfreeze ((isActive_freeze_iff hT.isActive hfreeze).mp hc.isActive).2.symm
  simp only [meets_iff_forall_meetsIn hsizing]
  constructor
  · exact fun h => ⟨fun c hc => (h c ((hactive c).mp hc).1).of_sameContent (hsame c hc), fun c hc => h c (hT.trans hc)⟩
  · rintro ⟨h', h⟩ c hc
    by_cases hcT : d.Active T c
    · exact h c hcT
    · have hc' := (hactive c).mpr ⟨hc, hcT⟩
      exact (h' c hc').of_sameContent (hsame c hc').symm

/-! ## Points of both parts -/

variable {a a' aT : Allocation} {s box : Node → Box Rat}

/-- A point of the frozen design reads as the point that is extended by the boxes of the template. -/
theorem read_freeze (hs : ∀ n ∈ d.solved T, n ≠ .cell T → d.box? n = some (s n)) (hsT : s (.cell T) = b)
    (ha : Allocation.ofRoot d root = .ok a) (ha' : Allocation.ofRoot d' root = .ok a')
    (haT : Allocation.ofRoot d T = .ok aT) :
    a'.read d' (a'.point box) = a.read d (a.point fun n => if n ∈ aT.nodes then s n else box n) := by
  have hnodes : ∀ n, n ∈ a'.nodes ↔ n ∈ a.nodes ∧ n ∉ aT.nodes := by
    intro n
    rw [Allocation.mem_nodes_iff ha, Allocation.mem_nodes_iff ha', Allocation.mem_nodes_iff haT]
    exact mem_solved_freeze_iff hd hT hne he hfreeze
  funext n
  by_cases hnT : n ∈ aT.nodes
  · have hsolved := (Allocation.mem_nodes_iff haT).mp hnT
    have hn := (Allocation.mem_nodes_iff ha).mpr (hT.solved_subset hsolved)
    rw [Allocation.read_of_not_mem (fun h => ((hnodes n).mp h).2 hnT), Allocation.read_point d _ hn, if_pos hnT]
    by_cases hcell : n = .cell T
    · rw [hcell, box?_freeze_self hT.isActive hfreeze, hsT]
    · rw [box?_freeze hT.isActive hfreeze hcell, hs n hsolved hcell]
  · have hcell : n ≠ .cell T := by
      rintro rfl
      exact hnT ((Allocation.mem_nodes_iff haT).mpr (cell_mem_solved_iff.mpr (active_self hT.isActive)))
    by_cases hn : n ∈ a.nodes
    · rw [Allocation.read_point d' _ ((hnodes n).mpr ⟨hn, hnT⟩), Allocation.read_point d _ hn, if_neg hnT]
    · rw [Allocation.read_of_not_mem (fun h => hn ((hnodes n).mp h).1), Allocation.read_of_not_mem hn,
        box?_freeze hT.isActive hfreeze hcell]

end Parts

/-! ## Substitution -/

/-- Freezing a template substitutes its boxes: a point of the frozen design and the boxes of the nodes below the template
satisfy the rows of the frozen design and those of the template exactly if together they satisfy the rows of the design.
A row without unknowns counts as one that must hold. -/
theorem satisfied_freeze_iff {a a' : Allocation} {cs cs' : Compiled Rat} {s : Node → Box Rat} (hd : d.WellFormed)
    (hT : d.Active root T) (hne : T ≠ root) (he : d.Enclosed root T) (hsizing : config.defaultSizing = false)
    (ht : 0 ≤ config.correction.tolerance) (hs : ∀ n ∈ d.solved T, n ≠ .cell T → d.box? n = some (s n))
    (hfreeze : d.freeze T = .ok (d', s (.cell T)))
    (ha : Allocation.ofRoot d root = .ok a) (hc : compile d a config = .ok cs)
    (ha' : Allocation.ofRoot d' root = .ok a') (hc' : compile d' a' config = .ok cs') :
    ∃ aT csT, Allocation.ofRoot d T = .ok aT ∧ compile d aT config = .ok csT ∧ ∀ box : Node → Box Rat,
      ((cs'.infeasible = [] ∧ cs'.problem.isSatisfied (a'.point box) config.correction.tolerance) ∧
          (csT.infeasible = [] ∧ csT.problem.isSatisfied (aT.point s) config.correction.tolerance)) ↔
        cs.infeasible = [] ∧ cs.problem.isSatisfied
          (a.point fun n => if n ∈ aT.nodes then s n else box n) config.correction.tolerance := by
  obtain ⟨aT, haT⟩ : ∃ aT, Allocation.ofRoot d T = .ok aT := ⟨_, Allocation.ofRoot_eq hT.isActive⟩
  obtain ⟨csT, hcT⟩ := exists_compile_template ha hc haT hT he.named
  refine ⟨aT, csT, haT, hcT, fun box => ?_⟩
  have hd' := (sameStructure_freeze hfreeze).wellFormed hd
  rw [compiled_iff_meets hd ha hc ht, compiled_iff_meets hd' ha' hc' ht, compiled_iff_meets hd haT hcT ht,
    read_freeze hd hT hne he hfreeze hs rfl ha ha' haT, meets_freeze_iff hd hT hne he hfreeze hsizing]
  -- the boxes of the template are those that the extended point gives
  have hread : ∀ n ∈ d.wanted T, aT.read d (aT.point s) n =
      a.read d (a.point fun n => if n ∈ aT.nodes then s n else box n) n := by
    intro n hn
    have hsub : n ∈ d.solved T → n ∈ d.solved root := fun h => hT.solved_subset h
    rw [← Allocation.mem_nodes_iff haT, ← Allocation.mem_nodes_iff ha] at hsub
    have hcases := he.solved_or_not hn
    rw [← Allocation.mem_nodes_iff haT, ← Allocation.mem_nodes_iff ha] at hcases
    rcases hcases with hnT | hnot
    · rw [Allocation.read_point d s hnT, Allocation.read_point d _ (hsub hnT), if_pos hnT]
    · rw [Allocation.read_of_not_mem hnot, Allocation.read_of_not_mem fun h => hnot (hsub h)]
  exact and_congr_right fun _ => ⟨fun h => h.congr hread, fun h => h.congr fun n hn => (hread n hn).symm⟩

/-- The design that becomes that of `viaPair` when `via` is frozen. -/
def thawedViaPair : Design Rat := empty.run (viaPair ++ [.unfreeze ⟨0⟩])

/-- Boxes for the nodes of `pair`. -/
def pairBoxes : Node → Box Rat
  | .cell _ => ⟨30, 29, 38, 31⟩
  | .polygon _ => ⟨30, 30, 38, 31⟩
  | .inst i => if i.index = 0 then ⟨33, 29, 35, 31⟩ else ⟨36, 29, 38, 31⟩

theorem satisfied_freeze_iff_viaPair : thawedViaPair.Active ⟨1⟩ ⟨0⟩ ∧ thawedViaPair.Enclosed ⟨1⟩ ⟨0⟩ ∧
    thawedViaPair.freeze ⟨0⟩ = .ok (empty.run viaPair, ⟨0, 0, 2, 2⟩) ∧
    ∃ a cs, Allocation.ofRoot thawedViaPair ⟨1⟩ = .ok a ∧ compile thawedViaPair a .standard = .ok cs ∧
      cs.infeasible = [] ∧ cs.problem.isSatisfied (a.point fun n =>
        if n ∈ [Node.cell ⟨0⟩, .polygon ⟨0⟩] then ⟨0, 0, 2, 2⟩ else pairBoxes n) (1 / 1000000) := by
  have hd : thawedViaPair.WellFormed := Reachable.wellFormed ⟨_, rfl⟩
  have hactive : thawedViaPair.Active ⟨1⟩ ⟨0⟩ :=
    (active_self (by decide +kernel)).template (by decide +kernel) (by decide +kernel)
  have hbelow : ∀ c, thawedViaPair.Active ⟨0⟩ c → c = ⟨0⟩ := by
    intro c hc
    have hmem := mem_activeCells_iff.mpr hc
    rwa [show thawedViaPair.activeCells ⟨0⟩ = [⟨0⟩] by decide +kernel, List.mem_singleton] at hmem
  have henclosed : thawedViaPair.Enclosed ⟨1⟩ ⟨0⟩ := by
    refine ⟨fun k c _ _ hc hne => absurd (hbelow c hc) hne, ?_⟩
    rintro n ⟨c, cell, hc, hcell, k, hk, -⟩
    obtain rfl := hbelow c hc
    have hnone : (thawedViaPair.cell? ⟨0⟩).map Cell.constraints = some [] := by decide +kernel
    rw [hcell, Option.map_some, Option.some.injEq] at hnone
    rw [hnone] at hk
    cases hk
  have haT : Allocation.ofRoot thawedViaPair ⟨0⟩ = .ok ⟨[.cell ⟨0⟩, .polygon ⟨0⟩], [⟨0⟩]⟩ := by decide +kernel
  have hs : ∀ n ∈ thawedViaPair.solved ⟨0⟩, n ≠ .cell ⟨0⟩ →
      thawedViaPair.box? n = some ((fun _ => ⟨0, 0, 2, 2⟩ : Node → Box Rat) n) := by
    intro n hn hne
    have hmem : n ∈ [Node.cell ⟨0⟩, .polygon ⟨0⟩] := (Allocation.mem_nodes_iff haT).mpr hn
    obtain rfl : n = .polygon ⟨0⟩ := by simpa [hne] using hmem
    decide +kernel
  have hfreeze : thawedViaPair.freeze ⟨0⟩ = .ok (empty.run viaPair, ⟨0, 0, 2, 2⟩) := by decide +kernel
  have ha : Allocation.ofRoot thawedViaPair ⟨1⟩ =
      .ok ⟨[.cell ⟨1⟩, .polygon ⟨1⟩, .inst ⟨0⟩, .inst ⟨1⟩, .cell ⟨0⟩, .polygon ⟨0⟩], [⟨1⟩, ⟨0⟩]⟩ := by
    decide +kernel
  have ha' : Allocation.ofRoot (empty.run viaPair) ⟨1⟩ =
      .ok ⟨[.cell ⟨1⟩, .polygon ⟨1⟩, .inst ⟨0⟩, .inst ⟨1⟩], [⟨1⟩]⟩ := by decide +kernel
  obtain ⟨cs, hc, -⟩ := map_eq_ok_iff.mp (show (fun _ => ()) <$> compile thawedViaPair
    ⟨[.cell ⟨1⟩, .polygon ⟨1⟩, .inst ⟨0⟩, .inst ⟨1⟩, .cell ⟨0⟩, .polygon ⟨0⟩], [⟨1⟩, ⟨0⟩]⟩ .standard = .ok () by
      decide +kernel)
  obtain ⟨cs', hc', hsatisfied'⟩ := map_eq_ok_iff.mp (show (fun c => (c.infeasible, c.problem.isSatisfied
    (Allocation.point ⟨[.cell ⟨1⟩, .polygon ⟨1⟩, .inst ⟨0⟩, .inst ⟨1⟩], [⟨1⟩]⟩ pairBoxes) (1 / 1000000))) <$>
      compile (empty.run viaPair) ⟨[.cell ⟨1⟩, .polygon ⟨1⟩, .inst ⟨0⟩, .inst ⟨1⟩], [⟨1⟩]⟩ .standard =
        .ok ([], true) by decide +kernel)
  obtain ⟨csT', hcT', hsatisfiedT⟩ := map_eq_ok_iff.mp (show (fun c => (c.infeasible, c.problem.isSatisfied
    (Allocation.point ⟨[.cell ⟨0⟩, .polygon ⟨0⟩], [⟨0⟩]⟩ fun _ => ⟨0, 0, 2, 2⟩) (1 / 1000000))) <$>
      compile thawedViaPair ⟨[.cell ⟨0⟩, .polygon ⟨0⟩], [⟨0⟩]⟩ .standard = .ok ([], true) by decide +kernel)
  simp only [Prod.mk.injEq] at hsatisfied' hsatisfiedT
  obtain ⟨aT, csT, haT', hcT, hiff⟩ := satisfied_freeze_iff hd hactive (by decide) henclosed rfl (by decide +kernel)
    hs hfreeze ha hc ha' hc'
  obtain rfl := Except.ok.inj (haT.symm.trans haT')
  obtain rfl := Except.ok.inj (hcT'.symm.trans hcT)
  exact ⟨hactive, henclosed, hfreeze, _, cs, ha, hc, (hiff pairBoxes).mp ⟨hsatisfied', hsatisfiedT⟩⟩

end Design

end RectLayout
