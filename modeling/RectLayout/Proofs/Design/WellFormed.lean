import RectLayout.Proofs.Design.Active
import RectLayout.Proofs.Design.Edit

/-!
# Well-formed designs

In a well-formed design every polygon and instance is listed once, by its owner; templates and the participants of
constraints exist; and no cell draws itself (`Design.WellFormed`). None of this depends on boxes or on which cells are
frozen (`SameStructure.wellFormed`), and every edit keeps it (`wellFormed_addCell`, `wellFormed_addPolygon`,
`wellFormed_addInstance`, `wellFormed_constrain`).
-/

namespace RectLayout.Design

open Walk

variable {α : Type} {d d' e : Design α} {c : CellId}

/-! ## The invariant -/

structure WellFormed (d : Design α) : Prop where
  /-- The children of a cell are the objects that it owns, other than itself. -/
  mem_children_iff : ∀ n c, n ∈ d.children c ↔ d.owner? n = some c ∧ n ≠ .cell c
  nodup_children : ∀ c, (d.children c).Nodup
  isSome_template : ∀ i inst, d.instance? i = some inst → (d.cell? inst.template).isSome
  isSome_participant : ∀ c cell, d.cell? c = some cell → ∀ k ∈ cell.constraints,
    (d.owner? k.subject).isSome ∧ ∀ n ∈ k.object, (d.owner? n).isSome
  acyclic : ∀ c t, t ∈ d.templates c → ¬ Reaches d.templates t c

theorem isSome_owner_cell_iff : (d.owner? (.cell c)).isSome ↔ (d.cell? c).isSome := by
  rw [owner?, Option.isSome_map]

/-- An object has one owner only. -/
theorem WellFormed.eq_of_mem_children (h : d.WellFormed) {n : Node} {k : CellId} (hc : n ∈ d.children c)
    (hk : n ∈ d.children k) : c = k := by
  have hc := ((h.mem_children_iff n c).mp hc).1
  rw [((h.mem_children_iff n k).mp hk).1] at hc
  exact (Option.some.inj hc).symm

theorem wellFormed_empty : (empty : Design α).WellFormed := by
  have hcell : ∀ c, (empty : Design α).cell? c = none := fun c => rfl
  have hinst : ∀ i, (empty : Design α).instance? i = none := fun i => rfl
  have howner : ∀ n, (empty : Design α).owner? n = none := fun n => by cases n <;> rfl
  refine ⟨fun n c => ?_, fun c => ?_, fun i inst h => ?_, fun c cell h => ?_, fun c t h => ?_⟩
  · simp [children, hcell, howner]
  · simp [children, hcell]
  · rw [hinst] at h; cases h
  · rw [hcell] at h; cases h
  · simp [templates, hcell] at h

/-! ## Designs of one structure -/

/-- Two designs have the same owners, children, templates and constraints. -/
structure SameStructure (d e : Design α) : Prop where
  owner : ∀ n, d.owner? n = e.owner? n
  children : ∀ c, d.children c = e.children c
  template : ∀ i, (d.instance? i).map Instance.template = (e.instance? i).map Instance.template
  constraints : ∀ c, (d.cell? c).map Cell.constraints = (e.cell? c).map Cell.constraints

theorem AgreeOutside.sameStructure {S : Set Node} (h : AgreeOutside S d e) : SameStructure d e :=
  ⟨h.owner, h.children, h.template, h.constraints⟩

theorem owner?_modifyCell (d : Design α) (c : CellId) (f : Cell α → Cell α) (n : Node) :
    (d.modifyCell c f).owner? n = d.owner? n := by
  cases n with
  | cell k => simp only [owner?, cell?_modifyCell]; split <;> simp [Function.comp_def]
  | polygon p => rfl
  | inst i => rfl

theorem constraints_modifyCell {f : Cell α → Cell α} (hf : ∀ x, (f x).constraints = x.constraints) (k : CellId) :
    ((d.modifyCell c f).cell? k).map Cell.constraints = (d.cell? k).map Cell.constraints := by
  rw [cell?_modifyCell]
  split
  · cases d.cell? k <;> simp [hf]
  · rfl

/-- A change of a cell that keeps its lists keeps the structure. -/
theorem sameStructure_modifyCell {f : Cell α → Cell α} (hp : ∀ x, (f x).polygons = x.polygons)
    (hi : ∀ x, (f x).instances = x.instances) (hk : ∀ x, (f x).constraints = x.constraints) :
    SameStructure d (d.modifyCell c f) where
  owner n := (owner?_modifyCell d c f n).symm
  children k := by
    by_cases h : c = k
    · subst h
      cases hc : d.cell? c <;> simp [Design.children, cell?_modifyCell, hc, hp, hi]
    · simp [Design.children, cell?_modifyCell, h]
  template _ := rfl
  constraints k := (constraints_modifyCell hk k).symm

theorem mem_templates_iff_map {t : CellId} : t ∈ d.templates c ↔
    ∃ i, .inst i ∈ d.children c ∧ (d.instance? i).map Instance.template = some t := by
  simp only [mem_templates_iff, Option.map_eq_some_iff]
  constructor
  · rintro ⟨i, inst, hi, h, ht⟩
    exact ⟨i, hi, inst, h, ht⟩
  · rintro ⟨i, hi, inst, h, ht⟩
    exact ⟨i, inst, hi, h, ht⟩

/-- A structure of fewer edges is acyclic if the other one is. -/
theorem acyclic_mono (hsub : ∀ c t, t ∈ e.templates c → t ∈ d.templates c)
    (h : ∀ c t, t ∈ d.templates c → ¬ Reaches d.templates t c) (c t : CellId) (ht : t ∈ e.templates c) :
    ¬ Reaches e.templates t c := fun hr =>
  h c t (hsub c t ht) (Relation.ReflTransGen.mono (fun a b => hsub a b) t c hr)

theorem SameStructure.wellFormed (h : SameStructure d e) (hd : d.WellFormed) : e.WellFormed where
  mem_children_iff n c := by rw [← h.children, ← h.owner]; exact hd.mem_children_iff n c
  nodup_children c := by rw [← h.children]; exact hd.nodup_children c
  isSome_template i inst hinst := by
    have ht := h.template i
    rw [hinst] at ht
    obtain ⟨x, hx, hxt⟩ := Option.map_eq_some_iff.mp ht
    rw [← isSome_owner_cell_iff, ← h.owner, isSome_owner_cell_iff, ← hxt]
    exact hd.isSome_template i x hx
  isSome_participant c cell hcell k hk := by
    have hc := h.constraints c
    rw [hcell] at hc
    obtain ⟨x, hx, hxk⟩ := Option.map_eq_some_iff.mp hc
    simp only [← h.owner]
    exact hd.isSome_participant c x hx k (hxk ▸ hk)
  acyclic := by
    refine acyclic_mono (fun c t ht => ?_) hd.acyclic
    rw [mem_templates_iff_map] at ht ⊢
    simpa only [h.children, h.template] using ht

/-! ## New objects -/

/-- `e` is `d` with a new object of a cell: the object has this owner and is in its list, and all else is as it was. -/
structure NewObject (d e : Design α) (n : Node) (c : CellId) : Prop where
  fresh : d.owner? n = none
  owner : ∀ m, e.owner? m = if m = n then some c else d.owner? m
  inserted : ∃ before after, d.children c = before ++ after ∧ e.children c = before ++ n :: after
  children : ∀ k, k ≠ c → e.children k = d.children k
  constraints : ∀ k, (e.cell? k).map Cell.constraints = (d.cell? k).map Cell.constraints

namespace NewObject

variable {n : Node}

theorem mem_children_iff (h : NewObject d e n c) (m : Node) (k : CellId) :
    m ∈ e.children k ↔ m ∈ d.children k ∨ (m = n ∧ k = c) := by
  by_cases hk : k = c
  · obtain ⟨before, after, hd, he⟩ := h.inserted
    rw [hk, hd, he]
    simp only [List.mem_append, List.mem_cons]
    tauto
  · simp [h.children k hk, hk]

theorem isSome_owner (h : NewObject d e n c) {m : Node} (hm : (d.owner? m).isSome) : (e.owner? m).isSome := by
  rw [h.owner]
  split
  · rfl
  · exact hm

/-- A new object keeps a design well-formed, if its template exists and the cell is not drawn by it. -/
theorem wellFormed (h : NewObject d e n c) (hcell : ∀ k, n ≠ .cell k) (hd : d.WellFormed)
    (htemplate : ∀ i inst, e.instance? i = some inst → (d.cell? inst.template).isSome)
    (hacyclic : ∀ k t, t ∈ e.templates k → ¬ Reaches e.templates t k) : e.WellFormed where
  mem_children_iff m k := by
    rw [h.mem_children_iff, hd.mem_children_iff, h.owner]
    by_cases hm : m = n
    · subst hm
      simp [h.fresh, hcell, eq_comm]
    · simp [hm]
  nodup_children k := by
    by_cases hk : k = c
    · obtain ⟨before, after, hbefore, hafter⟩ := h.inserted
      have hnot : n ∉ d.children c := fun hn => by
        have := ((hd.mem_children_iff n c).mp hn).1
        rw [h.fresh] at this
        cases this
      rw [hk, hafter, List.nodup_middle, List.nodup_cons, ← hbefore]
      exact ⟨hnot, hd.nodup_children c⟩
    · rw [h.children k hk]
      exact hd.nodup_children k
  isSome_template i inst hinst := by
    have ht := h.isSome_owner (isSome_owner_cell_iff.mpr (htemplate i inst hinst))
    exact isSome_owner_cell_iff.mp ht
  isSome_participant k cell hk q hq := by
    have hc := h.constraints k
    rw [hk] at hc
    obtain ⟨x, hx, hxq⟩ := Option.map_eq_some_iff.mp hc.symm
    have := hd.isSome_participant k x hx q (hxq ▸ hq)
    exact ⟨h.isSome_owner this.1, fun m hm => h.isSome_owner (this.2 m hm)⟩
  acyclic := hacyclic

end NewObject

/-! ## Edits -/

theorem wellFormed_addCell (h : d.WellFormed) (name : String) : (d.addCell name).1.WellFormed := by
  have howner : ∀ n, (d.owner? n).isSome → (d.addCell name).1.owner? n = d.owner? n := by
    intro n hn
    cases n with
    | cell k =>
      have hk : k ≠ ⟨d.cells.size⟩ := by
        rintro rfl
        rw [isSome_owner_cell_iff, cell?_size] at hn
        cases hn
      rw [owner?, owner?, cell?_addCell, if_neg hk]
    | polygon p => rfl
    | inst i => rfl
  have hchildren : ∀ k, (d.addCell name).1.children k = d.children k := by
    intro k
    by_cases hk : k = ⟨d.cells.size⟩
    · simp [children, cell?_addCell, hk, cell?_size, Cell.ofName]
    · simp [children, cell?_addCell, hk]
  have hcell : ∀ k, (d.cell? k).isSome → ((d.addCell name).1.cell? k).isSome := by
    intro k hk
    rw [← isSome_owner_cell_iff] at hk ⊢
    rwa [howner _ hk]
  refine ⟨fun n k => ?_, fun k => ?_, fun i inst hi => hcell _ (h.isSome_template i inst hi), ?_, ?_⟩
  · rw [hchildren, h.mem_children_iff]
    cases n with
    | cell j =>
      -- a cell is no child of any cell, before and after
      have hno : ∀ e : Design α, ¬ (e.owner? (.cell j) = some k ∧ Node.cell j ≠ .cell k) := by
        rintro e ⟨he, hne⟩
        obtain ⟨_, -, rfl⟩ := Option.map_eq_some_iff.mp he
        exact hne rfl
      exact iff_of_false (hno _) (hno _)
    | polygon p => exact Iff.rfl
    | inst i => exact Iff.rfl
  · rw [hchildren]
    exact h.nodup_children k
  · intro k cell hk q hq
    rw [cell?_addCell] at hk
    split at hk
    · cases hk
      cases hq
    · obtain ⟨hs, ho⟩ := h.isSome_participant k cell hk q hq
      exact ⟨by rwa [howner _ hs], fun n hn => by rw [howner _ (ho n hn)]; exact ho n hn⟩
  · refine acyclic_mono (fun k t ht => ?_) h.acyclic
    rw [mem_templates_iff_map] at ht ⊢
    simp only [hchildren] at ht
    exact ht

theorem newObject_addPolygon {name layer : String} {p : PolygonId} (hp : d.addPolygon c name layer = .ok (d', p)) :
    NewObject d d' (.polygon p) c := by
  obtain ⟨cell, hcell, -, rfl, rfl⟩ := addPolygon_ok hp
  refine ⟨by simp [owner?, polygon?_size], fun m => ?_, ?_, fun k hk => ?_, constraints_modifyCell fun _ => rfl⟩
  · rw [owner?_modifyCell]
    cases m with
    | cell k => simp [owner?]
    | polygon q => simp only [owner?, polygon?_withPolygon, Node.polygon.injEq]; split <;> rfl
    | inst i => simp [owner?]
  · exact ⟨cell.polygons.map .polygon, cell.instances.map .inst, by simp [children, hcell],
      by simp [children, cell?_modifyCell, hcell]⟩
  · simp [children, cell?_modifyCell, hk.symm]

theorem newObject_addInstance {name : String} {t : CellId} {i : InstanceId}
    (hi : d.addInstance c name t = .ok (d', i)) : NewObject d d' (.inst i) c := by
  obtain ⟨cell, hcell, -, -, -, rfl, rfl⟩ := addInstance_ok hi
  refine ⟨by simp [owner?, instance?_size], fun m => ?_, ?_, fun k hk => ?_, constraints_modifyCell fun _ => rfl⟩
  · rw [owner?_modifyCell]
    cases m with
    | cell k => simp [owner?]
    | polygon q => simp [owner?]
    | inst j => simp only [owner?, instance?_withInstance, Node.inst.injEq]; split <;> rfl
  · exact ⟨cell.polygons.map .polygon ++ cell.instances.map .inst, [], by simp [children, hcell],
      by simp [children, cell?_modifyCell, hcell]⟩
  · simp [children, cell?_modifyCell, hk.symm]

theorem wellFormed_addPolygon (h : d.WellFormed) {name layer : String} {p : PolygonId}
    (hp : d.addPolygon c name layer = .ok (d', p)) : d'.WellFormed := by
  have hnew := newObject_addPolygon hp
  obtain ⟨cell, hcell, -, rfl, rfl⟩ := addPolygon_ok hp
  refine hnew.wellFormed (fun k => by simp) h h.isSome_template (acyclic_mono (fun k t ht => ?_) h.acyclic)
  rw [mem_templates_iff_map] at ht ⊢
  simpa [hnew.mem_children_iff] using ht

/-- A path that uses a new edge from `c` to `t` is a path to `c` and one from `t`. -/
theorem reaches_of_newEdge {t u v : CellId} {next next' : CellId → List CellId}
    (hedge : ∀ a b, b ∈ next' a → b ∈ next a ∨ (a = c ∧ b = t)) (h : Reaches next' u v) :
    Reaches next u v ∨ (Reaches next u c ∧ Reaches next t v) := by
  induction h with
  | refl => exact .inl .refl
  | tail _ he ih =>
    rcases hedge _ _ he with he | ⟨rfl, rfl⟩
    · exact ih.imp (fun h => h.tail he) fun ⟨h₁, h₂⟩ => ⟨h₁, h₂.tail he⟩
    · exact .inr ⟨ih.elim id fun h => h.1, .refl⟩

theorem wellFormed_addInstance (h : d.WellFormed) {name : String} {t : CellId} {i : InstanceId}
    (hi : d.addInstance c name t = .ok (d', i)) : d'.WellFormed := by
  have hnew := newObject_addInstance hi
  obtain ⟨cell, hcell, -, ht, hdrawn, rfl, hd'⟩ := addInstance_ok hi
  rw [mem_reachable_iff] at hdrawn
  have hinst : ∀ j, d'.instance? j = if j = ⟨d.instances.size⟩ then some ⟨name, t, none, c⟩ else d.instance? j := by
    intro j
    rw [hd', instance?_modifyCell, instance?_withInstance]
  have hedge : ∀ a b, b ∈ d'.templates a → b ∈ d.templates a ∨ (a = c ∧ b = t) := by
    intro a b hb
    obtain ⟨j, hj, hb⟩ := mem_templates_iff_map.mp hb
    rw [hinst] at hb
    rcases (hnew.mem_children_iff _ a).mp hj with hj | ⟨hj, rfl⟩
    · have hne : j ≠ ⟨d.instances.size⟩ := by
        rintro rfl
        have := ((h.mem_children_iff _ a).mp hj).1
        rw [hnew.fresh] at this
        cases this
      rw [if_neg hne] at hb
      exact .inl (mem_templates_iff_map.mpr ⟨j, hj, hb⟩)
    · rw [if_pos (Node.inst.inj hj)] at hb
      exact .inr ⟨rfl, (Option.some.inj hb).symm⟩
  refine hnew.wellFormed (fun k => by simp) h (fun j inst hj => ?_) fun k u hu hr => ?_
  · rw [hinst] at hj
    split at hj
    · cases hj
      exact ht
    · exact h.isSome_template j inst hj
  · -- a cycle uses the new edge, for there was none before; so its template draws the cell, which was checked
    rcases hedge k u hu with hu | ⟨rfl, rfl⟩
    · rcases reaches_of_newEdge hedge hr with hr | ⟨hr₁, hr₂⟩
      · exact h.acyclic k u hu hr
      · exact hdrawn ((hr₂.tail hu).trans hr₁)
    · exact (reaches_of_newEdge hedge hr).elim hdrawn fun h => hdrawn h.2

theorem wellFormed_constrain (h : d.WellFormed) {subject : Node} {clause : String} {object : Option Node}
    (hk : d.constrain c subject clause object = .ok d') : d'.WellFormed := by
  obtain ⟨cell, hcell, -, hsubject, hobject, rfl⟩ := constrain_ok hk
  have hchildren : ∀ k, (d.modifyCell c fun cell =>
      { cell with constraints := cell.constraints ++ [⟨subject, clause, object⟩] }).children k = d.children k := by
    intro k
    by_cases hk : c = k
    · subst hk
      simp [children, cell?_modifyCell, hcell]
    · simp [children, cell?_modifyCell, hk]
  refine ⟨fun n k => ?_, fun k => ?_, fun i inst hi => ?_, fun k x hx q hq => ?_, ?_⟩
  · rw [hchildren, owner?_modifyCell]
    exact h.mem_children_iff n k
  · rw [hchildren]
    exact h.nodup_children k
  · rw [← isSome_owner_cell_iff, owner?_modifyCell, isSome_owner_cell_iff]
    exact h.isSome_template i inst hi
  · simp only [owner?_modifyCell]
    rw [cell?_modifyCell] at hx
    split at hx
    · rename_i hck
      subst hck
      rw [hcell] at hx
      cases hx
      rcases List.mem_append.mp hq with hq | hq
      · exact h.isSome_participant c cell hcell q hq
      · rw [List.mem_singleton.mp hq]
        exact ⟨hsubject, hobject⟩
    · exact h.isSome_participant k x hx q hq
  · refine acyclic_mono (fun k t ht => ?_) h.acyclic
    rw [mem_templates_iff_map] at ht ⊢
    simpa only [hchildren, instance?_modifyCell] using ht

theorem sameStructure_unfreeze (h : d.unfreeze c = .ok d') : SameStructure d d' := by
  obtain ⟨-, rfl⟩ := unfreeze_ok h
  refine sameStructure_modifyCell ?_ ?_ ?_ <;> exact fun _ => rfl

theorem sameStructure_freeze [Scalar α] {b : Box α} (h : d.freeze c = .ok (d', b)) : SameStructure d d' := by
  obtain ⟨_, -, ⟨-, rfl⟩ | ⟨-, -, -, rfl⟩⟩ := freeze_ok h
  · exact (AgreeOutside.refl ∅ d').sameStructure
  · refine sameStructure_modifyCell ?_ ?_ ?_ <;> exact fun _ => rfl

end RectLayout.Design
