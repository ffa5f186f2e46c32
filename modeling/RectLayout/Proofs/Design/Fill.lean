import RectLayout.Proofs.Design.Drawing

/-!
# Filling a new cell

A cell that was just added can be filled with polygons and instances that all get boxes. Each such step succeeds, shows
one shape or placement more, and keeps all other cells (`Filling.addShape`, `Filling.addPlacement`); at the end the cell
gets the box of its content and may be frozen, which changes nothing of what it shows (`Filling.setBox_content`,
`Filling.freeze_content`).
-/

namespace RectLayout.Design

variable {α : Type} {d e e' : Design α} {k t : CellId} {S : List (Shape α)} {P : List (Placement α)}

/-! ## Edits that succeed -/

theorem getCell_eq {cell : Cell α} (hcell : d.cell? k = some cell) : d.getCell k = .ok cell := by
  simp [getCell, hcell]

theorem getUnfrozen_eq {cell : Cell α} (hcell : d.cell? k = some cell) (hfrozen : cell.frozen = none) :
    d.getUnfrozen k = .ok cell := by
  simp [getUnfrozen, getCell_eq hcell, Cell.isFrozen, hfrozen, bind, Except.bind]

/-- A cell that is not frozen takes a polygon. -/
theorem addPolygon_eq (hk : d.isActive k) (name layer : String) : d.addPolygon k name layer =
    .ok ((d.withPolygon ⟨name, layer, none, k⟩).modifyCell k fun cell =>
      { cell with polygons := cell.polygons ++ [⟨d.polygons.size⟩] }, ⟨d.polygons.size⟩) := by
  obtain ⟨cell, hcell, hfrozen⟩ := isActive_iff.mp hk
  simp [addPolygon, getUnfrozen_eq hcell hfrozen, bind, Except.bind, pure, Except.pure, withPolygon]

/-- A cell that is not frozen takes an instance of a cell that does not draw it. -/
theorem addInstance_eq (hk : d.isActive k) (name : String) (ht : (d.cell? t).isSome) (hdrawn : k ∉ d.reachable t) :
    d.addInstance k name t = .ok ((d.withInstance ⟨name, t, none, k⟩).modifyCell k fun cell =>
      { cell with instances := cell.instances ++ [⟨d.instances.size⟩] }, ⟨d.instances.size⟩) := by
  obtain ⟨cell, hcell, hfrozen⟩ := isActive_iff.mp hk
  obtain ⟨drawn, ht⟩ := Option.isSome_iff_exists.mp ht
  simp [addInstance, getUnfrozen_eq hcell hfrozen, getCell_eq ht, hdrawn, bind, Except.bind, pure, Except.pure,
    withInstance]

/-- A cell that is not frozen takes no instance of a cell that draws it. -/
theorem addInstance_recursive {cell drawn : Cell α} (hcell : d.cell? k = some cell) (hfrozen : cell.frozen = none)
    (ht : d.cell? t = some drawn) (name : String) (hdrawn : k ∈ d.reachable t) :
    d.addInstance k name t = .error (.recursiveInstance cell.name drawn.name) := by
  simp [addInstance, getUnfrozen_eq hcell hfrozen, getCell_eq ht, hdrawn, bind, Except.bind]

/-- An object of a cell that is not frozen takes a box. -/
theorem setBox_eq {n : Node} (hn : d.owner? n = some k) (hk : d.isActive k) (box : Box α) :
    d.setBox n box = .ok (d.writeBox n (some box)) := by
  obtain ⟨cell, hcell, hfrozen⟩ := isActive_iff.mp hk
  simp [setBox, getOwner, hn, getUnfrozen_eq hcell hfrozen, bind, Except.bind, pure, Except.pure]

/-- A cell that is not frozen takes a constraint on objects that exist. -/
theorem constrain_eq (hk : d.isActive k) {subject : Node} (hsubject : (d.owner? subject).isSome) (clause : String)
    {object : Option Node} (hobject : ∀ n ∈ object, (d.owner? n).isSome) : d.constrain k subject clause object =
    .ok (d.modifyCell k fun cell => { cell with constraints := cell.constraints ++ [⟨subject, clause, object⟩] }) := by
  obtain ⟨cell, hcell, hfrozen⟩ := isActive_iff.mp hk
  obtain ⟨c, hc⟩ := Option.isSome_iff_exists.mp hsubject
  cases object with
  | none => simp [constrain, getUnfrozen_eq hcell hfrozen, getOwner, hc, bind, Except.bind, pure, Except.pure]
  | some n =>
    obtain ⟨c', hc'⟩ := Option.isSome_iff_exists.mp (hobject n rfl)
    simp [constrain, getUnfrozen_eq hcell hfrozen, getOwner, hc, hc', bind, Except.bind, Functor.map, Except.map, pure,
      Except.pure]

/-- A cell is frozen with the box around its objects if all of them have boxes. -/
theorem freeze_eq [Scalar α] (hk : d.isActive k) (hbound : ∀ n ∈ d.children k, (d.box? n).isSome) {box : Box α}
    (hbox : Box.tight? (d.childBoxes k) = some box) :
    d.freeze k = .ok (d.modifyCell k fun cell => { cell with box := some box, frozen := some box }, box) := by
  obtain ⟨cell, hcell, hfrozen⟩ := isActive_iff.mp hk
  have hfind : (d.children k).find? (fun n => (d.box? n).isNone) = none := by
    rw [List.find?_eq_none]
    intro n hn
    simp [Option.isSome_iff_ne_none.mp (hbound n hn)]
  simp [freeze, getCell_eq hcell, hfrozen, hfind, hbox, bind, Except.bind, pure, Except.pure]

/-! ## What the edits show -/

theorem shapes_of_polygons {c c' : Cell α} {p : PolygonId} {x : Polygon α} {box : Box α} (hd : d.cell? k = some c)
    (he : e.cell? k = some c') (hc : c'.polygons = c.polygons ++ [p]) (hold : ∀ q ∈ c.polygons, e.polygon? q = d.polygon? q)
    (hnew : e.polygon? p = some x) (hbox : x.box = some box) : e.shapes k = d.shapes k ++ [⟨x.layer, box⟩] := by
  simp only [shapes, hd, he, Option.map_some, Option.getD_some, hc, List.filterMap_append, List.filterMap_cons, hnew,
    hbox, List.filterMap_nil, bind, Option.bind, pure]
  congr 1
  exact List.filterMap_congr fun q hq => by rw [hold q hq]

theorem placements_of_instances {c c' : Cell α} {i : InstanceId} {x : Instance α} {box : Box α}
    (hd : d.cell? k = some c) (he : e.cell? k = some c') (hc : c'.instances = c.instances ++ [i])
    (hold : ∀ j ∈ c.instances, e.instance? j = d.instance? j) (hnew : e.instance? i = some x)
    (hbox : x.box = some box) : e.placements k = d.placements k ++ [⟨x.name, x.template, box⟩] := by
  simp only [placements, hd, he, Option.map_some, Option.getD_some, hc, List.filterMap_append, List.filterMap_cons,
    hnew, hbox, List.filterMap_nil, bind, Option.bind, pure]
  congr 1
  exact List.filterMap_congr fun j hj => by rw [hold j hj]

theorem shapes_congr (hcell : (e.cell? k).map Cell.polygons = (d.cell? k).map Cell.polygons)
    (hpolygon : ∀ p, e.polygon? p = d.polygon? p) : e.shapes k = d.shapes k := by
  rw [shapes, shapes, hcell, funext hpolygon]

theorem placements_congr (hcell : (e.cell? k).map Cell.instances = (d.cell? k).map Cell.instances)
    (hinst : ∀ i, e.instance? i = d.instance? i) : e.placements k = d.placements k := by
  rw [placements, placements, hcell, funext hinst]

/-! ## Filling -/

/-- `e` is `d` with a new cell `k` that shows `S` and `P`. No other cell draws `k`, and all its objects have boxes. -/
structure Filling [Scalar α] (d e : Design α) (k : CellId) (S : List (Shape α)) (P : List (Placement α)) : Prop where
  reachable : e.Reachable
  active : e.isActive k
  others : ∀ c, c ≠ k → SameContent c d e
  undrawn : ∀ i inst, e.instance? i = some inst → inst.template ≠ k
  bound : ∀ n ∈ e.children k, (e.box? n).isSome
  shapes : e.shapes k = S
  placements : e.placements k = P

variable [Scalar α]

theorem Reachable.of_apply (h : d.Reachable) {op : Operation α} (hop : d.apply op = .ok e) : e.Reachable := by
  obtain ⟨ops, rfl⟩ := h
  refine ⟨ops ++ [op], ?_⟩
  have hafter : (empty.run ops).after op = e := by simp [after, hop]
  rw [run, List.foldl_append]
  exact hafter.symm

theorem Reachable.of_addPolygon (h : d.Reachable) {name layer : String} {p : PolygonId}
    (hp : d.addPolygon k name layer = .ok (e, p)) : e.Reachable :=
  h.of_apply (show d.apply (.addPolygon k name layer) = .ok e by rw [apply, hp]; rfl)

theorem Reachable.of_addInstance (h : d.Reachable) {name : String} {i : InstanceId}
    (hi : d.addInstance k name t = .ok (e, i)) : e.Reachable :=
  h.of_apply (show d.apply (.addInstance k name t) = .ok e by rw [apply, hi]; rfl)

theorem Reachable.of_setBox (h : d.Reachable) {n : Node} {box : Box α} (hn : d.setBox n box = .ok e) : e.Reachable :=
  h.of_apply (show d.apply (.setBox n box) = .ok e from hn)

theorem Reachable.of_freeze (h : d.Reachable) {box : Box α} (hf : d.freeze k = .ok (e, box)) : e.Reachable :=
  h.of_apply (show d.apply (.freeze k) = .ok e by rw [apply, hf]; rfl)

/-- A cell that was just added is being filled and shows nothing yet. -/
theorem filling_addCell (h : d.Reachable) (name : String) :
    Filling d (d.addCell name).1 ⟨d.cells.size⟩ [] [] := by
  have hcell : (d.addCell name).1.cell? ⟨d.cells.size⟩ = some (.ofName name) := by rw [cell?_addCell, if_pos rfl]
  refine ⟨h.of_apply (show d.apply (.addCell name) = .ok _ from rfl), ?_, ?_, ?_, ?_, ?_, ?_⟩
  · exact isActive_iff.mpr ⟨_, hcell, rfl⟩
  · exact fun c hc => sameContent_addCell name hc
  · intro i inst hi ht
    -- a template existed before the cell was added
    have hsome := h.wellFormed.isSome_template i inst hi
    rw [ht, cell?_size] at hsome
    cases hsome
  · simp [children, hcell, Cell.ofName]
  · simp [Design.shapes, hcell, Cell.ofName]
  · simp [Design.placements, hcell, Cell.ofName]

namespace Filling

/-- A new object of the cell takes a box, and then the cell is still being filled. -/
theorem of_newObject (h : Filling d e k S P) {e₁ : Design α} {n : Node} {box : Box α} (hnew : NewObject e e₁ n k)
    (hn : ∀ c, n ≠ .cell c) (hreachable : e₁.Reachable) (hactive : e₁.isActive k)
    (hothers : ∀ c, c ≠ k → SameContent c e e₁) (hundrawn : ∀ i inst, e₁.instance? i = some inst → inst.template ≠ k)
    (hold : ∀ m ∈ e.children k, e₁.box? m = e.box? m) {S' : List (Shape α)} {P' : List (Placement α)}
    (hS : (e₁.writeBox n (some box)).shapes k = S') (hP : (e₁.writeBox n (some box)).placements k = P') :
    ∃ e₂, e₁.setBox n box = .ok e₂ ∧ Filling d e₂ k S' P' := by
  have howner : e₁.owner? n = some k := by rw [hnew.owner, if_pos rfl]
  have hset := setBox_eq howner hactive box
  have hwrite := agreeOutside_writeBox (Set.mem_singleton n) e₁ (some box)
  refine ⟨_, hset, hreachable.of_setBox hset, ?_, fun c hc => ?_, fun i inst hi => ?_, fun m hm => ?_, hS, hP⟩
  · rw [← hwrite.isActive]
    exact hactive
  · refine ((h.others c hc).trans (hothers c hc)).trans (hreachable.wellFormed.sameContent_setBox hset ?_)
    rw [howner]
    exact fun hk => hc (Option.some.inj hk).symm
  · have ht := hwrite.template i
    rw [hi] at ht
    obtain ⟨inst', hinst', ht⟩ := Option.map_eq_some_iff.mp ht
    rw [← ht]
    exact hundrawn i inst' hinst'
  · rw [← hwrite.children] at hm
    rcases (hnew.mem_children_iff m k).mp hm with hm | ⟨rfl, -⟩
    · have hne : m ≠ n := h.reachable.wellFormed.ne_of_mem_children hm hnew.fresh
      rw [← hwrite.box (by simpa using hne), hold m hm]
      exact h.bound m hm
    · have hstored : (e₁.writeBox m (some box)).stored? m = some box := by simp [stored?_writeBox, howner]
      cases m with
      | cell c => exact absurd rfl (hn c)
      | polygon p => rw [box?, ← stored?, hstored]; rfl
      | inst i => rw [box?, ← stored?, hstored]; rfl

/-- The cell takes a polygon and shows one shape more. -/
theorem addShape (h : Filling d e k S P) (name layer : String) (box : Box α) : ∃ e₁ p e₂,
    e.addPolygon k name layer = .ok (e₁, p) ∧ e₁.setBox (.polygon p) box = .ok e₂ ∧
      Filling d e₂ k (S ++ [⟨layer, box⟩]) P := by
  obtain ⟨cell, hcell, hfrozen⟩ := isActive_iff.mp h.active
  have hadd := addPolygon_eq h.active name layer
  generalize hp : (⟨e.polygons.size⟩ : PolygonId) = p at hadd
  generalize he₁ : (e.withPolygon ⟨name, layer, none, k⟩).modifyCell k _ = e₁ at hadd
  have hnew := newObject_addPolygon hadd
  have hcell₁ : e₁.cell? k = some { cell with polygons := cell.polygons ++ [p] } := by
    rw [← he₁, cell?_modifyCell, if_pos rfl, cell?_withPolygon, hcell]
    rfl
  have hpolygon : ∀ q, e₁.polygon? q = if q = p then some ⟨name, layer, none, k⟩ else e.polygon? q := by
    intro q
    rw [← he₁, polygon?_modifyCell, polygon?_withPolygon, hp]
  have hinst : ∀ i, e₁.instance? i = e.instance? i := fun i => by rw [← he₁]; rfl
  have hold : ∀ q ∈ cell.polygons, q ≠ p := by
    rintro q hq rfl
    have hchild : .polygon q ∈ e.children k := by simp [children, hcell, hq]
    exact h.reachable.wellFormed.ne_of_mem_children hchild hnew.fresh rfl
  -- the design after the box of the polygon is set
  have hcell₂ : (e₁.writeBox (.polygon p) (some box)).cell? k =
      some { cell with polygons := cell.polygons ++ [p] } := by
    rw [cell?_writeBox, if_neg (by simp), hcell₁]
  have hold₂ : ∀ q ∈ cell.polygons, (e₁.writeBox (.polygon p) (some box)).polygon? q = e.polygon? q := by
    intro q hq
    rw [polygon?_writeBox, if_neg (by simp [(hold q hq).symm]), hpolygon, if_neg (hold q hq)]
  have hnew₂ : (e₁.writeBox (.polygon p) (some box)).polygon? p = some ⟨name, layer, some box, k⟩ := by
    rw [polygon?_writeBox, if_pos rfl, hpolygon, if_pos rfl]
    rfl
  have hS := shapes_of_polygons hcell hcell₂ rfl hold₂ hnew₂ rfl
  have hP : (e₁.writeBox (.polygon p) (some box)).placements k = e.placements k := by
    refine placements_congr ?_ fun i => by rw [instance?_writeBox, if_neg (by simp), hinst]
    rw [hcell₂, hcell]
    rfl
  obtain ⟨e₂, hset, hfill⟩ := h.of_newObject hnew (fun c => by simp) (h.reachable.of_addPolygon hadd)
    (isActive_iff.mpr ⟨_, hcell₁, hfrozen⟩)
    (fun c hc => h.reachable.wellFormed.sameContent_addPolygon hadd hc.symm)
    (fun i inst hi => h.undrawn i inst (by rwa [hinst] at hi))
    (fun m hm => by
      cases m with
      | cell c => exact absurd rfl (cell_ne_of_mem_children hm c)
      | polygon q =>
        have hq : q ∈ cell.polygons := by simpa [children, hcell] using hm
        rw [box?, box?, hpolygon, if_neg (hold q hq)]
      | inst i => rw [box?, box?, hinst])
    (hS.trans (by rw [h.shapes])) (hP.trans h.placements)
  exact ⟨e₁, p, e₂, hadd, hset, hfill⟩

/-- No cell but `k` itself reaches `k`. -/
theorem not_mem_reachable (h : Filling d e k S P) (ht : t ≠ k) : k ∉ e.reachable t := by
  intro hk
  rcases Relation.ReflTransGen.cases_tail (mem_reachable_iff.mp hk) with rfl | ⟨c, -, hc⟩
  · exact ht rfl
  · obtain ⟨i, inst, -, hinst, htemplate⟩ := mem_templates_iff.mp hc
    exact h.undrawn i inst hinst htemplate

/-- The cell takes an instance of another cell and shows one placement more. -/
theorem addPlacement (h : Filling d e k S P) (name : String) (ht : (e.cell? t).isSome) (htk : t ≠ k) : ∃ e₁ i,
    e.addInstance k name t = .ok (e₁, i) ∧ SameContent t e e₁ ∧ ∀ box, ∃ e₂, e₁.setBox (.inst i) box = .ok e₂ ∧
      Filling d e₂ k S (P ++ [⟨name, t, box⟩]) := by
  obtain ⟨cell, hcell, hfrozen⟩ := isActive_iff.mp h.active
  have hadd := addInstance_eq h.active name ht (h.not_mem_reachable htk)
  generalize hi : (⟨e.instances.size⟩ : InstanceId) = i at hadd
  generalize he₁ : (e.withInstance ⟨name, t, none, k⟩).modifyCell k _ = e₁ at hadd
  have hnew := newObject_addInstance hadd
  have hcell₁ : e₁.cell? k = some { cell with instances := cell.instances ++ [i] } := by
    rw [← he₁, cell?_modifyCell, if_pos rfl, cell?_withInstance, hcell]
    rfl
  have hinst : ∀ j, e₁.instance? j = if j = i then some ⟨name, t, none, k⟩ else e.instance? j := by
    intro j
    rw [← he₁, instance?_modifyCell, instance?_withInstance, hi]
  have hpolygon : ∀ q, e₁.polygon? q = e.polygon? q := fun q => by rw [← he₁]; rfl
  have hold : ∀ j ∈ cell.instances, j ≠ i := by
    rintro j hj rfl
    have hchild : .inst j ∈ e.children k := by simp [children, hcell, hj]
    exact h.reachable.wellFormed.ne_of_mem_children hchild hnew.fresh rfl
  have hothers : ∀ c, c ≠ k → SameContent c e e₁ :=
    fun c hc => h.reachable.wellFormed.sameContent_addInstance hadd hc.symm
  refine ⟨e₁, i, hadd, hothers t htk, fun box => ?_⟩
  -- the design after the box of the instance is set
  have hcell₂ : (e₁.writeBox (.inst i) (some box)).cell? k =
      some { cell with instances := cell.instances ++ [i] } := by
    rw [cell?_writeBox, if_neg (by simp), hcell₁]
  have hold₂ : ∀ j ∈ cell.instances, (e₁.writeBox (.inst i) (some box)).instance? j = e.instance? j := by
    intro j hj
    rw [instance?_writeBox, if_neg (by simp [(hold j hj).symm]), hinst, if_neg (hold j hj)]
  have hnew₂ : (e₁.writeBox (.inst i) (some box)).instance? i = some ⟨name, t, some box, k⟩ := by
    rw [instance?_writeBox, if_pos rfl, hinst, if_pos rfl]
    rfl
  have hP := placements_of_instances hcell hcell₂ rfl hold₂ hnew₂ rfl
  have hS : (e₁.writeBox (.inst i) (some box)).shapes k = e.shapes k := by
    refine shapes_congr ?_ fun q => by rw [polygon?_writeBox, if_neg (by simp), hpolygon]
    rw [hcell₂, hcell]
    rfl
  exact h.of_newObject hnew (fun c => by simp) (h.reachable.of_addInstance hadd)
    (isActive_iff.mpr ⟨_, hcell₁, hfrozen⟩) hothers
    (fun j inst hj => by
      rw [hinst] at hj
      split at hj
      · cases hj
        exact htk
      · exact h.undrawn j inst hj)
    (fun m hm => by
      cases m with
      | cell c => exact absurd rfl (cell_ne_of_mem_children hm c)
      | polygon q => rw [box?, box?, hpolygon]
      | inst j =>
        have hj : j ∈ cell.instances := by simpa [children, hcell] using hm
        rw [box?, box?, hinst, if_neg (hold j hj)])
    (hS.trans h.shapes) (hP.trans (by rw [h.placements]))

/-- A cell with content takes the box of the content as its own. -/
theorem setBox_content (h : Filling d e k S P) {box : Box α} (hbox : Box.tight? (e.childBoxes k) = some box) :
    ∃ e₂, e.setBox (.cell k) box = .ok e₂ ∧ Box.tight? (e₂.childBoxes k) = some box ∧ Filling d e₂ k S P := by
  obtain ⟨cell, hcell, -⟩ := isActive_iff.mp h.active
  have howner : e.owner? (.cell k) = some k := by simp [owner?, hcell]
  have hset := setBox_eq howner h.active box
  have hwrite := agreeOutside_writeBox (Set.mem_singleton (Node.cell k)) e (some box)
  have hboxes : ∀ n ∈ e.children k, (e.writeBox (.cell k) (some box)).box? n = e.box? n := by
    intro n hn
    exact (hwrite.box (by simpa using cell_ne_of_mem_children hn k)).symm
  have hchildBoxes : (e.writeBox (.cell k) (some box)).childBoxes k = e.childBoxes k := by
    rw [childBoxes, childBoxes, ← hwrite.children]
    exact List.filterMap_congr hboxes
  refine ⟨_, hset, by rw [hchildBoxes, hbox], h.reachable.of_setBox hset, ?_, fun c hc => ?_, h.undrawn, fun n hn => ?_,
    ?_, ?_⟩
  · rw [← hwrite.isActive]
    exact h.active
  · refine (h.others c hc).trans (h.reachable.wellFormed.sameContent_setBox hset ?_)
    rw [howner]
    exact fun hk => hc (Option.some.inj hk).symm
  · rw [← hwrite.children] at hn
    rw [hboxes n hn]
    exact h.bound n hn
  · rw [← h.shapes]
    refine shapes_congr ?_ fun _ => rfl
    rw [cell?_writeBox, if_pos rfl, Option.map_map]
    rfl
  · rw [← h.placements]
    refine placements_congr ?_ fun _ => rfl
    rw [cell?_writeBox, if_pos rfl, Option.map_map]
    rfl

/-- A filled cell with content can be frozen, and shows the same with its objects bound. -/
theorem freeze_content (h : Filling d e k S P) {box : Box α} (hbox : Box.tight? (e.childBoxes k) = some box) :
    ∃ e₂, e.freeze k = .ok (e₂, box) ∧ e₂.Reachable ∧ (∀ c, c ≠ k → SameContent c d e₂) ∧ (e₂.cell? k).isSome ∧
      (∀ n ∈ e₂.children k, (e₂.box? n).isSome) ∧ e₂.shapes k = S ∧ e₂.placements k = P := by
  obtain ⟨cell, hcell, -⟩ := isActive_iff.mp h.active
  have hfreeze := freeze_eq h.active h.bound hbox
  refine ⟨_, hfreeze, h.reachable.of_freeze hfreeze, fun c hc => ?_, ?_, fun n hn => ?_, ?_, ?_⟩
  · exact (h.others c hc).trans (sameContent_freeze hfreeze hc.symm)
  · rw [cell?_modifyCell, if_pos rfl, hcell]
    rfl
  · have hchild : n ∈ e.children k := by
      simpa only [children, cell?_modifyCell, if_true, hcell, Option.map_some] using hn
    cases n with
    | cell c => exact absurd rfl (cell_ne_of_mem_children hchild c)
    | polygon p => exact h.bound _ hchild
    | inst i => exact h.bound _ hchild
  · rw [← h.shapes]
    refine shapes_congr ?_ fun _ => rfl
    rw [cell?_modifyCell, if_pos rfl, Option.map_map]
    rfl
  · rw [← h.placements]
    refine placements_congr ?_ fun _ => rfl
    rw [cell?_modifyCell, if_pos rfl, Option.map_map]
    rfl

end Filling

end RectLayout.Design
