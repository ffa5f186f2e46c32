import RectLayout.Proofs.Design.Grow

/-!
# What an entry of a design file adds

A name of an entry stands for the object that was declared last under it, or for the cell of the entry (`Denotes`,
`resolve_scopeOf_iff`). An entry that is taken grows the first cell of its name by a block: its polygons and instances
one after another, and its constraints with their names resolved (`Holds`, `grows_addEntry`).
-/

namespace RectLayout.DesignFile

open Design

variable {α : Type} {f : DesignFile α} {d e : Design α} {entry : CellEntry α} {k c : CellId} {name entryName : String}

/-! ## Scopes -/

/-- A name that the constraints of an entry can use. -/
def Declares (entry : CellEntry α) (name : String) : Prop :=
  name = entry.name ∨ name ∈ entry.polygons.map PolygonEntry.name ∨ name ∈ entry.instances.map InstanceEntry.name

/-- A name stands for the object that was declared last under it, or for the cell of the entry if there is none. -/
inductive Denotes (declared : List (String × Node)) (entryName : String) (k : CellId) (name : String) : Node → Prop where
  | object {before after : List (String × Node)} {n : Node} : declared = before ++ (name, n) :: after →
    name ∉ after.map Prod.fst → Denotes declared entryName k name n
  | cell : name ∉ declared.map Prod.fst → name = entryName → Denotes declared entryName k name (.cell k)

/-- The scope after objects were declared. -/
def scopeOf (declared : List (String × Node)) (entryName : String) (k : CellId) : Scope :=
  declared.reverse ++ [(entryName, .cell k)]

theorem lookup_reverse_eq_some_iff {declared : List (String × Node)} {n : Node} :
    declared.reverse.lookup name = some n ↔
      ∃ before after, declared = before ++ (name, n) :: after ∧ name ∉ after.map Prod.fst := by
  rw [List.lookup_eq_some_iff]
  constructor
  · rintro ⟨l₁, l₂, hsplit, hfresh⟩
    refine ⟨l₂.reverse, l₁.reverse, ?_, ?_⟩
    · rw [← List.reverse_reverse declared, hsplit]
      simp
    · simpa using fun n' hn' => hfresh (name, n') hn'
  · rintro ⟨before, after, rfl, hfresh⟩
    refine ⟨after.reverse, before.reverse, by simp, fun p hp => ?_⟩
    rw [bne_iff_ne]
    rintro rfl
    exact hfresh (List.mem_map_of_mem (List.mem_reverse.mp hp))

theorem resolve_eq_ok_iff {scope : Scope} {n : Node} :
    scope.resolve entryName name = .ok n ↔ scope.lookup name = some n := by
  rw [Scope.resolve]
  cases scope.lookup name <;> simp

theorem lookup_reverse_eq_none_iff {declared : List (String × Node)} :
    declared.reverse.lookup name = none ↔ name ∉ declared.map Prod.fst := by
  rw [List.lookup_eq_none_iff]
  simp only [bne_iff_ne, List.mem_reverse, List.mem_map, not_exists, not_and]
  exact forall₂_congr fun p _ => ⟨Ne.symm, Ne.symm⟩

theorem lookup_singleton {m n : Node} : [(entryName, m)].lookup name = some n ↔ name = entryName ∧ m = n := by
  rw [List.lookup_cons]
  by_cases h : name = entryName
  · simp [h]
  · simp [h, beq_eq_false_iff_ne.mpr h]

/-- What a scope resolves. -/
theorem resolve_scopeOf_iff {declared : List (String × Node)} {n : Node} :
    (scopeOf declared entryName k).resolve entryName name = .ok n ↔ Denotes declared entryName k name n := by
  rw [resolve_eq_ok_iff, scopeOf, List.lookup_append, Option.or_eq_some_iff, lookup_reverse_eq_some_iff,
    lookup_reverse_eq_none_iff, lookup_singleton]
  constructor
  · rintro (⟨before, after, hsplit, hfresh⟩ | ⟨hnone, hname, rfl⟩)
    · exact .object hsplit hfresh
    · exact .cell hnone hname
  · rintro (⟨hsplit, hfresh⟩ | ⟨hnone, hname⟩)
    · exact .inl ⟨_, _, hsplit, hfresh⟩
    · exact .inr ⟨hnone, hname, rfl⟩

/-- A name of a scope is resolved. -/
theorem exists_resolve (entryName : String) {scope : Scope} (h : name ∈ scope.map Prod.fst) :
    ∃ n, scope.resolve entryName name = .ok n ∧ (name, n) ∈ scope := by
  simp only [resolve_eq_ok_iff]
  cases hlookup : scope.lookup name with
  | none =>
    obtain ⟨q, hq, rfl⟩ := List.mem_map.mp h
    simpa using List.lookup_eq_none_iff.mp hlookup q hq
  | some n =>
    obtain ⟨l₁, l₂, rfl, -⟩ := List.lookup_eq_some_iff.mp hlookup
    exact ⟨n, rfl, by simp⟩

/-! ## Blocks -/

/-- What an entry adds to a cell. -/
structure Block where
  polygons : List PolygonId
  instances : List InstanceId
  constraints : List Constraint

/-- The objects of an entry under their names, in the order of declaration. -/
def Block.declared (b : Block) (entry : CellEntry α) : List (String × Node) :=
  (entry.polygons.map PolygonEntry.name).zip (b.polygons.map .polygon) ++
    (entry.instances.map InstanceEntry.name).zip (b.instances.map .inst)

/-- A constraint is one of a file, with its participants resolved. -/
structure Resolves (declared : List (String × Node)) (entryName : String) (k : CellId) (q : ConstraintEntry)
    (x : Constraint) : Prop where
  clause : x.clause = q.clause
  subject : Denotes declared entryName k q.subject x.subject
  object : Option.Rel (Denotes declared entryName k) q.object x.object

/-- A polygon is one of a file, in the cell `k`. -/
def IsPolygon (d : Design α) (k : CellId) (p : PolygonEntry α) (id : PolygonId) : Prop :=
  d.polygon? id = some ⟨p.name, p.layer, p.box, k⟩

/-- An instance is one of a file, in the cell `k`. It has no box. -/
def IsInstance (d : Design α) (k : CellId) (i : InstanceEntry) (id : InstanceId) : Prop :=
  ∃ t, d.cellNamed? i.cell = some t ∧ d.instance? id = some ⟨i.name, t, none, k⟩

/-- A block is what an entry says, in the cell `k`. -/
structure Holds (d : Design α) (k : CellId) (entry : CellEntry α) (b : Block) : Prop where
  polygons : List.Forall₂ (IsPolygon d k) entry.polygons b.polygons
  instances : List.Forall₂ (IsInstance d k) entry.instances b.instances
  constraints : List.Forall₂ (Resolves (b.declared entry) entry.name k) entry.constraints b.constraints

variable {scope scope' : Scope} {ps : List PolygonId} {is : List InstanceId} {cs : List Constraint} {b : Block}

theorem IsPolygon.mono (hg : Grows d e c ps is cs) {p : PolygonEntry α} {id : PolygonId} (h : IsPolygon d k p id) :
    IsPolygon e k p id :=
  hg.polygon?_eq_some h

theorem IsInstance.mono (hg : Grows d e c ps is cs) {i : InstanceEntry} {id : InstanceId} (h : IsInstance d k i id) :
    IsInstance e k i id := by
  obtain ⟨t, ht, hid⟩ := h
  exact ⟨t, (hg.cellNamed? _).trans ht, hg.instance?_eq_some hid⟩

theorem Holds.mono (hg : Grows d e c ps is cs) (h : Holds d k entry b) : Holds e k entry b :=
  ⟨h.polygons.imp fun _ _ => .mono hg, h.instances.imp fun _ _ => .mono hg, h.constraints⟩

/-- The declared names are those of the polygons and instances. -/
theorem map_fst_declared (hp : entry.polygons.length = b.polygons.length)
    (hi : entry.instances.length = b.instances.length) : (b.declared entry).map Prod.fst =
      entry.polygons.map PolygonEntry.name ++ entry.instances.map InstanceEntry.name := by
  rw [Block.declared, List.map_append, List.map_fst_zip (by simp [hp]), List.map_fst_zip (by simp [hi])]

/-- The names of a scope are those that the entry declares. -/
theorem mem_map_fst_scopeOf_iff (hp : entry.polygons.length = b.polygons.length)
    (hi : entry.instances.length = b.instances.length) :
    name ∈ (scopeOf (b.declared entry) entry.name k).map Prod.fst ↔ Declares entry name := by
  rw [scopeOf, List.map_append, List.map_reverse, map_fst_declared hp hi, List.mem_append, List.mem_reverse,
    List.mem_append, Declares]
  simp only [List.map_cons, List.map_nil, List.mem_singleton]
  tauto

/-- The objects of a scope exist, if those of its block do. -/
theorem isSome_owner_of_mem_scopeOf (hps : List.Forall₂ (IsPolygon d k) entry.polygons b.polygons)
    (his : List.Forall₂ (IsInstance d k) entry.instances b.instances) (hk : (d.cell? k).isSome) :
    ∀ x ∈ scopeOf (b.declared entry) entry.name k, (d.owner? x.2).isSome := by
  rintro ⟨name, n⟩ hx
  rw [scopeOf, List.mem_append, List.mem_reverse, Block.declared, List.mem_append, List.mem_singleton] at hx
  rcases hx with (hx | hx) | hx
  · obtain ⟨id, hid, rfl⟩ := List.mem_map.mp (List.of_mem_zip hx).2
    obtain ⟨p, -, hp⟩ := exists_of_forall₂ hps hid
    rw [owner?, hp]
    rfl
  · obtain ⟨id, hid, rfl⟩ := List.mem_map.mp (List.of_mem_zip hx).2
    obtain ⟨i, -, t, -, hi⟩ := exists_of_forall₂ his hid
    rw [owner?, hi]
    rfl
  · rw [(Prod.mk.inj hx).2, isSome_owner_cell_iff]
    exact hk

/-- The scope of a block, first its polygons, then its instances. -/
theorem scopeOf_declared (entry : CellEntry α) (k : CellId) (ps : List PolygonId) (is : List InstanceId) :
    ((entry.instances.map InstanceEntry.name).zip (is.map Node.inst)).reverse ++
      (((entry.polygons.map PolygonEntry.name).zip (ps.map Node.polygon)).reverse ++ [(entry.name, .cell k)]) =
      scopeOf (Block.declared ⟨ps, is, []⟩ entry) entry.name k := by
  rw [scopeOf, Block.declared, List.reverse_append, List.append_assoc]

/-! ## What an entry adds -/

theorem grows_addPolygonEntry {p : PolygonEntry α} (h : addPolygonEntry k (d, scope) p = .ok (e, scope')) :
    ∃ id, Grows d e k [id] [] [] ∧ IsPolygon e k p id ∧ scope' = (p.name, .polygon id) :: scope := by
  obtain ⟨⟨d₁, id⟩, hadd, h⟩ := bind_eq_ok_iff.mp h
  obtain ⟨hgrows, hid⟩ := grows_addPolygon hadd
  refine ⟨id, ?_⟩
  dsimp only at h
  cases hbox : p.box with
  | none =>
    rw [hbox] at h
    cases h
    exact ⟨hgrows, by rw [IsPolygon, hid, hbox], rfl⟩
  | some box =>
    rw [hbox] at h
    obtain ⟨d₂, hset, h⟩ := bind_eq_ok_iff.mp h
    obtain ⟨_, _, -, -, -, rfl⟩ := setBox_ok hset
    cases h
    refine ⟨hgrows.writeBox List.mem_cons_self _, ?_, rfl⟩
    rw [IsPolygon, polygon?_writeBox, if_pos rfl, hid, hbox]
    rfl

theorem grows_addInstanceEntry {i : InstanceEntry} (h : addInstanceEntry f k (d, scope) i = .ok (e, scope')) :
    ∃ id, Grows d e k [] [id] [] ∧ IsInstance e k i id ∧ scope' = (i.name, .inst id) :: scope := by
  unfold addInstanceEntry at h
  dsimp only at h
  cases ht : d.cellNamed? i.cell with
  | none =>
    rw [ht] at h
    cases h
  | some t =>
    rw [ht] at h
    obtain ⟨⟨d₁, id⟩, hadd, h⟩ := bind_eq_ok_iff.mp h
    cases h
    obtain ⟨hgrows, hid⟩ := grows_addInstance hadd
    exact ⟨id, hgrows, ⟨t, (hgrows.cellNamed? _).trans ht, hid⟩, rfl⟩

theorem grows_addConstraintEntry {declared : List (String × Node)} {q : ConstraintEntry}
    (h : addConstraintEntry entryName k (scopeOf declared entryName k) d q = .ok e) :
    ∃ x, Grows d e k [] [] [x] ∧ Resolves declared entryName k q x := by
  obtain ⟨subject, hsubject, h⟩ := bind_eq_ok_iff.mp h
  obtain ⟨object, hobject, h⟩ := bind_eq_ok_iff.mp h
  refine ⟨_, grows_constrain h, rfl, resolve_scopeOf_iff.mp hsubject, ?_⟩
  cases hq : q.object with
  | none =>
    rw [hq] at hobject
    cases hobject
    exact .none
  | some name =>
    rw [hq] at hobject
    obtain ⟨n, hn, rfl⟩ := map_eq_ok_iff.mp hobject
    exact .some (resolve_scopeOf_iff.mp hn)

theorem grows_addPolygons {l : List (PolygonEntry α)} (h : l.foldlM (addPolygonEntry k) (d, scope) = .ok (e, scope')) :
    ∃ ids, Grows d e k ids [] [] ∧ List.Forall₂ (IsPolygon e k) l ids ∧
      scope' = ((l.map PolygonEntry.name).zip (ids.map .polygon)).reverse ++ scope := by
  refine foldlM_accumulates (P := fun l s => ∃ ids, Grows d s.1 k ids [] [] ∧ List.Forall₂ (IsPolygon s.1 k) l ids ∧
      s.2 = ((l.map PolygonEntry.name).zip (ids.map .polygon)).reverse ++ scope) ?_ ⟨[], .refl d k, .nil, rfl⟩ h
  rintro done p ⟨d₁, scope₁⟩ ⟨d₂, scope₂⟩ ⟨ids, hgrows, hids, rfl⟩ hp
  obtain ⟨id, hgrows', hid, rfl⟩ := grows_addPolygonEntry hp
  refine ⟨ids ++ [id], hgrows.trans hgrows', ?_, ?_⟩
  · exact List.rel_append (hids.imp fun _ _ => .mono hgrows') (.cons hid .nil)
  · simp [List.zip_append, hids.length_eq]

theorem grows_addInstances {l : List InstanceEntry} (h : l.foldlM (addInstanceEntry f k) (d, scope) = .ok (e, scope')) :
    ∃ ids, Grows d e k [] ids [] ∧ List.Forall₂ (IsInstance e k) l ids ∧
      scope' = ((l.map InstanceEntry.name).zip (ids.map .inst)).reverse ++ scope := by
  refine foldlM_accumulates (P := fun l s => ∃ ids, Grows d s.1 k [] ids [] ∧ List.Forall₂ (IsInstance s.1 k) l ids ∧
      s.2 = ((l.map InstanceEntry.name).zip (ids.map .inst)).reverse ++ scope) ?_ ⟨[], .refl d k, .nil, rfl⟩ h
  rintro done i ⟨d₁, scope₁⟩ ⟨d₂, scope₂⟩ ⟨ids, hgrows, hids, rfl⟩ hi
  obtain ⟨id, hgrows', hid, rfl⟩ := grows_addInstanceEntry hi
  refine ⟨ids ++ [id], hgrows.trans hgrows', ?_, ?_⟩
  · exact List.rel_append (hids.imp fun _ _ => .mono hgrows') (.cons hid .nil)
  · simp [List.zip_append, hids.length_eq]

theorem grows_addConstraints {declared : List (String × Node)} {l : List ConstraintEntry}
    (h : l.foldlM (addConstraintEntry entryName k (scopeOf declared entryName k)) d = .ok e) :
    ∃ xs, Grows d e k [] [] xs ∧ List.Forall₂ (Resolves declared entryName k) l xs := by
  refine foldlM_accumulates (P := fun l s => ∃ xs, Grows d s k [] [] xs ∧
      List.Forall₂ (Resolves declared entryName k) l xs) ?_ ⟨[], .refl d k, .nil⟩ h
  rintro done q d₁ d₂ ⟨xs, hgrows, hxs⟩ hq
  obtain ⟨x, hgrows', hx⟩ := grows_addConstraintEntry hq
  exact ⟨xs ++ [x], hgrows.trans hgrows', List.rel_append hxs (.cons hx .nil)⟩

/-- An entry grows the first cell of its name by a block. -/
theorem grows_addEntry (h : addEntry f d entry = .ok e) : ∃ k b, d.cellNamed? entry.name = some k ∧
    Grows d e k b.polygons b.instances b.constraints ∧ Holds e k entry b := by
  unfold addEntry at h
  cases hk : d.cellNamed? entry.name with
  | none =>
    rw [hk] at h
    cases h
  | some k =>
    rw [hk] at h
    obtain ⟨⟨d₁, scope₁⟩, hpolygons, h⟩ := bind_eq_ok_iff.mp h
    obtain ⟨⟨d₂, scope₂⟩, hinstances, hconstraints⟩ := bind_eq_ok_iff.mp h
    obtain ⟨ps, hps, hps', rfl⟩ := grows_addPolygons hpolygons
    obtain ⟨is, his, his', rfl⟩ := grows_addInstances hinstances
    rw [scopeOf_declared] at hconstraints
    obtain ⟨cs, hcs, hcs'⟩ := grows_addConstraints hconstraints
    refine ⟨k, ⟨ps, is, cs⟩, rfl, ?_, ?_, ?_, hcs'⟩
    · simpa using (hps.trans his).trans hcs
    · exact hps'.imp fun _ _ h => (h.mono his).mono hcs
    · exact his'.imp fun _ _ h => h.mono hcs

end RectLayout.DesignFile
