import RectLayout.Proofs.Library.Transcript

/-!
# What an import leaves

An import adds one cell for each name that it does, and no edit of an import renames a cell
(`cellNames_importContent`). So the names of the cells are those that are done, in order (`Listed`), which are the names
that the top leads to: none other is asked for (`importCell_keeps`), and what is done refers to nothing but what is done
(`Transcribed.mem_of_reaches`). All objects of a cell are bound, so its polygons and instances are what it shows: one
polygon for each rectangle and one instance for each reference, in order (`Reads.copies`). Together these are the
inventory of a design that was imported (`inventory_of_importCell`).
-/

namespace RectLayout

/-! ## Names of cells -/

namespace Design

variable {α : Type} {d : Design α}

/-- The names of all cells, in order of creation. -/
def cellNames (d : Design α) : List String := d.cells.toList.map Cell.name

theorem getElem?_cellNames (d : Design α) (n : Nat) : d.cellNames[n]? = (d.cell? ⟨n⟩).map Cell.name := by
  rw [cellNames, List.getElem?_map, Array.getElem?_toList, cell?]

theorem cellNames_modifyCell {f : Cell α → Cell α} (hf : ∀ cell, (f cell).name = cell.name) (c : CellId) :
    (d.modifyCell c f).cellNames = d.cellNames := by
  refine List.ext_getElem? fun n => ?_
  rw [getElem?_cellNames, getElem?_cellNames, cell?_modifyCell]
  split
  · rw [Option.map_map]
    exact congrArg (fun g => Option.map g _) (funext hf)
  · rfl

theorem cellNames_writeBox (n : Node) (box : Option (Box α)) : (d.writeBox n box).cellNames = d.cellNames := by
  cases n with
  | cell c => exact cellNames_modifyCell (f := fun cell => { cell with box }) (fun _ => rfl) c
  | polygon p => rfl
  | inst i => rfl

theorem cellNames_setBox {e : Design α} {n : Node} {box : Box α} (h : d.setBox n box = .ok e) :
    e.cellNames = d.cellNames := by
  obtain ⟨_, _, -, -, -, rfl⟩ := setBox_ok h
  exact cellNames_writeBox n _

end Design

namespace Library

open Design

variable {α : Type} [Scalar α] {lib : Library α} {config : ImportConfig α} {d e : Design α} {c k : CellId}
  {s s' : Imported α} {done : List (String × CellId)} {source : LibraryCell} {name top : String}

theorem cellNames_importRect {r : LibraryRect} {n : Nat} (h : importRect config c d r n = .ok e) :
    e.cellNames = d.cellNames := by
  unfold importRect at h
  split at h
  · cases h
  · obtain ⟨⟨d₁, p⟩, hadd, hset⟩ := bind_eq_ok_iff.mp h
    obtain ⟨_, -, -, -, rfl⟩ := addPolygon_ok hadd
    rw [cellNames_setBox hset, cellNames_modifyCell (by exact fun _ => rfl)]
    rfl

theorem cellNames_importRef {r : LibraryRef} {t : CellId} (h : importRef config c d r t = .ok e) :
    e.cellNames = d.cellNames := by
  obtain ⟨⟨d₁, i⟩, hadd, hset⟩ := bind_eq_ok_iff.mp h
  obtain ⟨_, -, -, -, -, -, rfl⟩ := addInstance_ok hadd
  rw [cellNames_setBox hset, cellNames_modifyCell (by exact fun _ => rfl)]
  rfl

/-- The import of a content adds one cell, with the name of the cell in the library. -/
theorem cellNames_importContent {templates : List CellId} (h : importContent config source templates d = .ok (e, k)) :
    e.cellNames = d.cellNames ++ [source.name] ∧ k = ⟨d.cells.size⟩ := by
  obtain ⟨d₁, hrects, h⟩ := bind_eq_ok_iff.mp h
  obtain ⟨d₂, hrefs, h⟩ := bind_eq_ok_iff.mp h
  have h₀ : (d.addCell source.name).1.cellNames = d.cellNames ++ [source.name] := by
    simp [cellNames, addCell, Cell.ofName]
  have h₁ := foldlM_keeps (P := fun e => e.cellNames = d.cellNames ++ [source.name])
    (fun _ hs _ _ _ hs' => (cellNames_importRect hs').trans hs) h₀ hrects
  have h₂ := foldlM_keeps (P := fun e => e.cellNames = d.cellNames ++ [source.name])
    (fun _ hs _ _ _ hs' => (cellNames_importRef hs').trans hs) h₁ hrefs
  split at h
  · cases h
    exact ⟨h₂, rfl⟩
  · obtain ⟨d₃, hset, h⟩ := bind_eq_ok_iff.mp h
    have h₃ := (cellNames_setBox hset).trans h₂
    split at h
    · obtain ⟨⟨d₄, b⟩, hfreeze, h⟩ := bind_eq_ok_iff.mp h
      cases h
      obtain ⟨cell, -, ⟨-, rfl⟩ | ⟨-, -, -, rfl⟩⟩ := freeze_ok hfreeze
      · exact ⟨h₃, rfl⟩
      · exact ⟨(cellNames_modifyCell (by exact fun _ => rfl) _).trans h₃, rfl⟩
    · cases h
      exact ⟨h₃, rfl⟩

/-! ## Names that are done -/

/-- What is done are the cells of the design with their names, in order. -/
def Listed (s : Imported α) : Prop := s.done = s.design.cellNames.zipIdx.map fun q => (q.1, ⟨q.2⟩)

omit [Scalar α] in
theorem Listed.mem_iff (h : Listed s) : (name, k) ∈ s.done ↔ (s.design.cell? k).map Cell.name = some name := by
  rw [h, ← getElem?_cellNames, ← List.mk_mem_zipIdx_iff_getElem?]
  simp only [List.mem_map, Prod.exists, Prod.mk.injEq]
  constructor
  · rintro ⟨name', n, hmem, rfl, rfl⟩
    exact hmem
  · exact fun hmem => ⟨name, k.index, hmem, rfl, rfl⟩

omit [Scalar α] in
theorem Listed.map_fst (h : Listed s) : s.done.map Prod.fst = s.design.cellNames := by
  rw [h, List.map_map]
  exact List.zipIdx_map_fst 0 _

theorem Listed.concat (h : Listed s) {templates : List CellId} (hname : source.name = name)
    (hcontent : importContent config source templates s.design = .ok (d, k)) : Listed ⟨d, s.done ++ [(name, k)]⟩ := by
  obtain ⟨hnames, rfl⟩ := cellNames_importContent hcontent
  have hsize : s.design.cellNames.length = s.design.cells.size := by simp [cellNames]
  show s.done ++ [(name, _)] = d.cellNames.zipIdx.map _
  rw [hnames, List.zipIdx_append, List.map_append, ← h, hname, Nat.zero_add, hsize]
  rfl

/-- What is done refers to nothing but what is done. -/
theorem Transcribed.mem_of_reaches (h : Transcribed lib config d done) {a b : String} (ha : a ∈ done.map Prod.fst)
    (hab : Relation.ReflTransGen lib.RefersTo a b) : b ∈ done.map Prod.fst := by
  induction hab with
  | refl => exact ha
  | tail _ hbc ih =>
    obtain ⟨⟨b, k⟩, hk, rfl⟩ := List.mem_map.mp ih
    obtain ⟨source, before, hbefore, hsource, hreads⟩ := h.exists_reads hk
    obtain ⟨source', hsource', r, hr, rfl⟩ := hbc
    obtain rfl := Option.some.inj (hsource.symm.trans hsource')
    obtain ⟨p, -, hp⟩ := exists_of_forall₂ hreads.refs.flip hr
    exact List.mem_map.mpr ⟨_, hbefore hp.done, rfl⟩

/-- Nothing that is done leads to itself. -/
theorem Transcribed.acyclic (h : Transcribed lib config d done) :
    ∀ name ∈ done.map Prod.fst, ¬ Relation.TransGen lib.RefersTo name name := by
  induction h with
  | nil => exact List.forall_mem_nil _
  | @concat done name k source h hfresh hsource hreads ih =>
    rw [List.map_append, List.forall_mem_append]
    refine ⟨ih, fun name' hname' hcycle => ?_⟩
    obtain rfl := List.mem_singleton.mp hname'
    -- the first step of the circle goes to a name that was done before, and from there all is done
    obtain ⟨b, ⟨source', hsource', r, hr, rfl⟩, hback⟩ := Relation.TransGen.head'_iff.mp hcycle
    obtain rfl := Option.some.inj (hsource.symm.trans hsource')
    obtain ⟨p, -, hp⟩ := exists_of_forall₂ hreads.refs.flip hr
    exact hfresh (h.mem_of_reaches (List.mem_map.mpr ⟨_, hp.done, rfl⟩) hback)

/-! ## Objects of cells -/

/-- A cell has what a cell of a library has: a bound polygon for each rectangle, and a bound instance for each reference
at its point, in order. -/
structure Copies (config : ImportConfig α) (d : Design α) (source : LibraryCell) (cell : Cell α) : Prop where
  polygons : List.Forall₂ (fun r p => ∃ polygon, d.polygon? p = some polygon ∧
    config.layers.lookup ⟨r.layer, r.datatype⟩ = some polygon.layer ∧
    polygon.box = some ⟨fromUnits config r.x1, fromUnits config r.y1, fromUnits config r.x2, fromUnits config r.y2⟩)
    source.rects cell.polygons
  instances : List.Forall₂ (fun r i => ∃ inst box, d.instance? i = some inst ∧ inst.name = r.name ∧
    (d.cell? inst.template).map Cell.name = some r.cell ∧ inst.box = some box ∧
    box.x1 = fromUnits config r.x ∧ box.y1 = fromUnits config r.y) source.refs cell.instances

/-- A cell that shows what a cell of a library has, and nothing else, copies it. -/
theorem Reads.copies (h : Reads config d done source k) {cell : Cell α} (hcell : d.cell? k = some cell)
    (hdone : ∀ name t, (name, t) ∈ done → (d.cell? t).map Cell.name = some name) : Copies config d source cell := by
  obtain ⟨-, hbound, hrects, hrefs⟩ := h
  simp only [children, hcell, List.forall_mem_append, List.forall_mem_map] at hbound
  simp only [shapes, hcell, Option.map_some, Option.getD_some] at hrects
  simp only [placements, hcell, Option.map_some, Option.getD_some] at hrefs
  constructor
  · refine (forall₂_of_filterMap (fun p hp => ?_) hrects).imp ?_
    · obtain ⟨box, hbox⟩ := Option.isSome_iff_exists.mp (hbound.1 p hp)
      obtain ⟨polygon, hpolygon, hbox⟩ := Option.bind_eq_some_iff.mp hbox
      simp [hpolygon, hbox]
    · rintro r p ⟨shape, hshape, hlayer, hbox⟩
      obtain ⟨polygon, hpolygon, hshape⟩ := Option.bind_eq_some_iff.mp hshape
      obtain ⟨box, hpbox, hshape⟩ := Option.bind_eq_some_iff.mp hshape
      obtain rfl := Option.some.inj hshape
      exact ⟨polygon, hpolygon, hlayer, by rw [hpbox, ← hbox]⟩
  · refine (forall₂_of_filterMap (fun i hi => ?_) hrefs).imp ?_
    · obtain ⟨box, hbox⟩ := Option.isSome_iff_exists.mp (hbound.2 i hi)
      obtain ⟨inst, hinst, hbox⟩ := Option.bind_eq_some_iff.mp hbox
      simp [hinst, hbox]
    · rintro r i ⟨placement, hplacement, hname, htemplate, hx, hy⟩
      obtain ⟨inst, hinst, hplacement⟩ := Option.bind_eq_some_iff.mp hplacement
      obtain ⟨box, hibox, hplacement⟩ := Option.bind_eq_some_iff.mp hplacement
      obtain rfl := Option.some.inj hplacement
      exact ⟨inst, box, hinst, hname, hdone _ _ htemplate, hibox, hx, hy⟩

/-! ## Inventories -/

/-- A design has exactly one cell for each name that the top leads to, and each cell copies the one of its name. -/
structure Inventory (lib : Library α) (config : ImportConfig α) (top : String) (d : Design α) (c : CellId) : Prop where
  nodup_names : d.cellNames.Nodup
  mem_names_iff : ∀ name, name ∈ d.cellNames ↔ Relation.ReflTransGen lib.RefersTo top name
  top : (d.cell? c).map Cell.name = some top
  copies : ∀ k cell, d.cell? k = some cell → ∃ source, lib.cell? cell.name = some source ∧ Copies config d source cell

/-- An import from nothing lists the cells that it makes. -/
theorem listed_of_importCell {fuel : Nat} {pending : List String}
    (h : importCell lib config fuel pending ⟨.empty, []⟩ top = .ok (s, c)) : Listed s :=
  importCell_keeps (P := Listed) (fun hs _ hsource hcontent => hs.concat (by simpa using List.find?_some hsource) hcontent)
    (s := ⟨.empty, []⟩) .refl rfl h

/-- An import from nothing, if it succeeds, leaves an inventory of what the name leads to, of which nothing leads to
itself. -/
theorem inventory_of_importCell {fuel : Nat} {pending : List String}
    (h : importCell lib config fuel pending ⟨.empty, []⟩ top = .ok (s, c)) : Inventory lib config top s.design c ∧
      ∀ name, Relation.ReflTransGen lib.RefersTo top name → ¬ Relation.TransGen lib.RefersTo name name := by
  have hstart : Sound lib config ⟨.empty, []⟩ := ⟨⟨[], rfl⟩, .nil⟩
  obtain ⟨hadvances, hdone⟩ := advances_importCell hstart h
  have htranscribed := hadvances.sound.transcribed
  have hlisted := listed_of_importCell h
  have hreached := importCell_keeps
    (P := fun s => ∀ name ∈ s.done.map Prod.fst, Relation.ReflTransGen lib.RefersTo top name)
    (fun {s name source templates d k} hs hname _ _ => by
      rw [List.map_append, List.forall_mem_append]
      exact ⟨hs, by simpa using hname⟩)
    (s := ⟨.empty, []⟩) .refl (List.forall_mem_nil _) h
  have hall : ∀ name, Relation.ReflTransGen lib.RefersTo top name → name ∈ s.done.map Prod.fst := fun name =>
    htranscribed.mem_of_reaches (List.mem_map.mpr ⟨_, hdone, rfl⟩)
  refine ⟨⟨?_, fun name => ?_, hlisted.mem_iff.mp hdone, fun k cell hcell => ?_⟩,
    fun name hname => htranscribed.acyclic name (hall name hname)⟩
  · rw [← hlisted.map_fst]
    exact htranscribed.nodup_names
  · rw [← hlisted.map_fst]
    exact ⟨hreached name, hall name⟩
  · obtain ⟨source, before, hbefore, hsource, hreads⟩ :=
      htranscribed.exists_reads (hlisted.mem_iff.mpr (by rw [hcell]; rfl))
    exact ⟨source, hsource, hreads.copies hcell fun name t ht => hlisted.mem_iff.mp (hbefore ht)⟩

end Library

end RectLayout
