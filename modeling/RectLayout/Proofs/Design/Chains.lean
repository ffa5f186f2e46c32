import RectLayout.Proofs.Design.Flatten
import RectLayout.Proofs.Operation

/-!
# Drawings are made of chains

The drawing of a cell is one list, in which offsets and paths are added up on the way down. Read one level at a time, it
is what the objects of the cell draw, one after the other (`flatten_eq_flatMap`): a polygon its box, and an instance the
whole drawing of its template, under its name and moved by its `Stamp` (`Design.rects`). So two instances of a template
draw the same up to that name and one translation (`rects_eq_map`).

Read down to the polygons, it has one rectangle for each `Chain` of placed instances that ends in a bound polygon. Those
are the chains that draw anything (`isSome_rect_iff`), and they can be listed, each once, with their rectangles in the
order of the drawing (`exists_listed`). By induction along the templates it is enough to list the chains of one object
(`exists_listed_node`) and to put such lists together (`Listed.append`).
-/

namespace RectLayout

/-- The name under which an instance draws its template, and the vector by which it moves it. -/
structure Stamp where
  template : CellId
  name : String
  dx : Rat
  dy : Rat
  deriving DecidableEq, Repr

/-- A rectangle of the template as the instance draws it. -/
def Stamp.draw (s : Stamp) (r : FlatRect Rat) : FlatRect Rat := r.moved [s.name] s.dx s.dy

/-- A chain of instances that ends in a polygon. -/
inductive Chain where
  | polygon (p : PolygonId)
  | inst (i : InstanceId) (rest : Chain)
  deriving DecidableEq, Repr

/-- The object with which a chain starts. -/
def Chain.head : Chain → Node
  | .polygon p => .polygon p
  | .inst i _ => .inst i

namespace Design

variable {d : Design Rat} {c : CellId} {i j : InstanceId}

/-! ## What the objects of a cell draw -/

/-- The stamp of an instance, if it has a box and its template has content: it moves the lower left corner of the content
to that of the box. -/
def stamp? (d : Design Rat) (i : InstanceId) : Option Stamp := do
  let inst ← d.instance? i
  let box ← inst.box
  let content ← d.contentBox? inst.template
  return ⟨inst.template, inst.name, box.x1 - content.x1, box.y1 - content.y1⟩

/-- The rectangle of a polygon, if it has a box. -/
def polygonRect? (d : Design Rat) (p : PolygonId) : Option (FlatRect Rat) := do
  let polygon ← d.polygon? p
  let box ← polygon.box
  return ⟨[polygon.name], polygon.layer, box⟩

/-- What an object draws in its cell. -/
def rects (d : Design Rat) : Node → List (FlatRect Rat)
  | .cell _ => []
  | .polygon p => (d.polygonRect? p).toList
  | .inst i =>
    match d.stamp? i with
    | none => []
    | some s => (d.flatten s.template).map s.draw

theorem stamp?_eq_some_iff {s : Stamp} : d.stamp? i = some s ↔ ∃ inst, d.instance? i = some inst ∧
    ∃ box, inst.box = some box ∧ ∃ content, d.contentBox? inst.template = some content ∧
      s = ⟨inst.template, inst.name, box.x1 - content.x1, box.y1 - content.y1⟩ := by
  simp only [stamp?, Option.bind_eq_bind, Option.pure_def, Option.bind_eq_some_iff, Option.some.injEq, @eq_comm _ s]

theorem template_mem_of_stamp {s : Stamp} (hi : .inst i ∈ d.children c) (hs : d.stamp? i = some s) :
    s.template ∈ d.templates c := by
  obtain ⟨inst, hinst, box, -, content, -, rfl⟩ := stamp?_eq_some_iff.mp hs
  exact mem_templates_iff.mpr ⟨i, inst, hi, hinst, rfl⟩

/-- On its own, a cell draws its polygons as they are. -/
theorem flatPolygons_eq_flatMap (cell : Cell Rat) :
    d.flatPolygons cell 0 0 [] = cell.polygons.flatMap fun p => d.rects (.polygon p) := by
  rw [flatPolygons, List.filterMap_eq_flatMap_toList]
  refine List.flatMap_congr fun p _ => ?_
  simp only [rects, polygonRect?, Box.translate_zero, List.nil_append]

/-- On its own, a cell draws by an instance the drawing of the template, moved. -/
theorem drawnBy_eq_rects (h : d.WellFormed) (i : InstanceId) : d.drawnBy d.cells.size i 0 0 [] = d.rects (.inst i) := by
  cases hinst : d.instance? i with
  | none => simp [drawnBy, rects, stamp?, hinst]
  | some inst =>
    cases hbox : inst.box with
    | none => simp [drawnBy, rects, stamp?, hinst, hbox]
    | some box =>
      cases hcontent : d.contentBox? inst.template with
      | none => simp [drawnBy, rects, stamp?, hinst, hbox, hcontent]
      | some content =>
        have hstamp : d.stamp? i = some ⟨inst.template, inst.name, box.x1 - content.x1, box.y1 - content.y1⟩ :=
          stamp?_eq_some_iff.mpr ⟨inst, hinst, box, hbox, content, hcontent, rfl⟩
        have hle := length_reachable_le_size h (h.isSome_template i inst hinst)
        simp only [drawnBy, hinst, hbox, hcontent, rects, hstamp, zero_add, List.nil_append]
        rw [flattenFrom_fuel h hle (length_reachable_le h _), flattenFrom_eq_map]
        rfl

/-- A cell draws what its objects draw. -/
theorem flatten_eq_flatMap (h : d.WellFormed) (c : CellId) : d.flatten c = (d.children c).flatMap d.rects := by
  cases hcell : d.cell? c with
  | none => simp [flatten, flattenFrom, children, hcell]
  | some cell =>
    have hchildren : d.children c = cell.polygons.map .polygon ++ cell.instances.map .inst := by simp [children, hcell]
    rw [hchildren, List.flatMap_append, List.flatMap_map, List.flatMap_map, flatten, flattenFrom_succ hcell,
      flatPolygons_eq_flatMap]
    congr 1
    exact List.flatMap_congr fun i _ => drawnBy_eq_rects h i

/-- Two instances of a template draw the same under different names, one translated against the other. -/
theorem rects_eq_map {a b : Instance Rat} {p q : Box Rat} (ha : d.instance? i = some a) (hb : d.instance? j = some b)
    (hp : a.box = some p) (hq : b.box = some q) (ht : a.template = b.template) :
    d.rects (.inst j) = (d.rects (.inst i)).map fun r =>
      ⟨b.name :: r.path.tail, r.layer, r.box.translate (q.x1 - p.x1) (q.y1 - p.y1)⟩ := by
  cases hcontent : d.contentBox? b.template with
  | none => simp [rects, stamp?, ha, hb, hp, hq, ht, hcontent]
  | some content =>
    have hi : d.stamp? i = some ⟨b.template, a.name, p.x1 - content.x1, p.y1 - content.y1⟩ :=
      stamp?_eq_some_iff.mpr ⟨a, ha, p, hp, content, ht ▸ hcontent, by rw [ht]⟩
    have hj : d.stamp? j = some ⟨b.template, b.name, q.x1 - content.x1, q.y1 - content.y1⟩ :=
      stamp?_eq_some_iff.mpr ⟨b, hb, q, hq, content, hcontent, rfl⟩
    simp only [rects, hi, hj, List.map_map]
    refine List.map_congr_left fun r _ => ?_
    simp only [Function.comp_apply, Stamp.draw, FlatRect.moved, Box.translate_translate, List.cons_append,
      List.nil_append, List.tail_cons]
    congr 2 <;> ring

/-! ## Chains -/

/-- What a chain draws in the cell of its first object, if its polygon is bound, its instances are placed, and each
object after an instance is one of its template. -/
def rect? (d : Design Rat) : Chain → Option (FlatRect Rat)
  | .polygon p => d.polygonRect? p
  | .inst i rest => do
    let s ← d.stamp? i
    if rest.head ∈ d.children s.template then (d.rect? rest).map s.draw else none

/-- In a chain that is placed everything has a box, and each object after an instance is one of its template. -/
def Placed (d : Design Rat) : Chain → Prop
  | .polygon p => (d.box? (.polygon p)).isSome
  | .inst i rest =>
    (d.box? (.inst i)).isSome ∧ (∃ inst, d.instance? i = some inst ∧ rest.head ∈ d.children inst.template) ∧ d.Placed rest

theorem Placed.isSome_box_head {chain : Chain} (h : d.Placed chain) : (d.box? chain.head).isSome := by
  cases chain with
  | polygon p => exact h
  | inst i rest => exact h.1

/-- The chains that draw anything are those that are placed: the templates on the way have content, for the next object
has a box. -/
theorem isSome_rect_iff (chain : Chain) : (d.rect? chain).isSome ↔ d.Placed chain := by
  induction chain with
  | polygon p =>
    cases hp : d.polygon? p with
    | none => simp [rect?, polygonRect?, Placed, box?, hp]
    | some polygon => cases hbox : polygon.box <;> simp [rect?, polygonRect?, Placed, box?, hp, hbox]
  | inst i rest ih =>
    constructor
    · intro hsome
      cases hs : d.stamp? i with
      | none => simp [rect?, hs] at hsome
      | some s =>
        by_cases hhead : rest.head ∈ d.children s.template
        · obtain ⟨inst, hinst, box, hbox, content, -, rfl⟩ := stamp?_eq_some_iff.mp hs
          have hrest : (d.rect? rest).isSome := by simpa [rect?, hs, hhead] using hsome
          exact ⟨by simp [box?, hinst, hbox], ⟨inst, hinst, hhead⟩, ih.mp hrest⟩
        · simp [rect?, hs, hhead] at hsome
    · rintro ⟨hbox, ⟨inst, hinst, hhead⟩, hrest⟩
      obtain ⟨content, hcontent⟩ := Option.isSome_iff_exists.mp
        (isSome_contentBox_iff.mpr (.inl ⟨rest.head, hhead, hrest.isSome_box_head⟩))
      obtain ⟨box, hbox⟩ := Option.isSome_iff_exists.mp hbox
      have hbox : inst.box = some box := by simpa [box?, hinst] using hbox
      have hs := stamp?_eq_some_iff.mpr ⟨inst, hinst, box, hbox, content, hcontent, rfl⟩
      simpa [rect?, hs, hhead] using ih.mpr hrest

/-- The chains from some objects that draw anything, listed once each, in the order of what they draw. -/
structure Listed (d : Design Rat) (heads : List Node) (chains : List Chain) (rects : List (FlatRect Rat)) : Prop where
  nodup : chains.Nodup
  mem_iff : ∀ chain, chain ∈ chains ↔ chain.head ∈ heads ∧ (d.rect? chain).isSome
  map_rect : chains.map d.rect? = rects.map some

namespace Listed

variable {heads heads' : List Node} {chains chains' : List Chain} {l l' : List (FlatRect Rat)}

theorem nil (h : ∀ chain : Chain, chain.head ∈ heads → d.rect? chain = none) : d.Listed heads [] [] where
  nodup := List.nodup_nil
  mem_iff chain := by
    refine iff_of_false List.not_mem_nil ?_
    rintro ⟨hhead, hsome⟩
    rw [h chain hhead] at hsome
    cases hsome
  map_rect := rfl

/-- Chains from different objects are different. -/
theorem append (h : d.Listed heads chains l) (h' : d.Listed heads' chains' l') (hdisjoint : heads.Disjoint heads') :
    d.Listed (heads ++ heads') (chains ++ chains') (l ++ l') where
  nodup := by
    refine h.nodup.append h'.nodup fun chain hmem hmem' => ?_
    exact hdisjoint ((h.mem_iff chain).mp hmem).1 ((h'.mem_iff chain).mp hmem').1
  mem_iff chain := by rw [List.mem_append, h.mem_iff, h'.mem_iff, List.mem_append, or_and_right]
  map_rect := by rw [List.map_append, List.map_append, h.map_rect, h'.map_rect]

/-- The chains from a polygon: at most the polygon itself. -/
theorem polygon (d : Design Rat) (p : PolygonId) : ∃ chains, d.Listed [.polygon p] chains (d.rects (.polygon p)) := by
  have hhead : ∀ chain : Chain, chain.head ∈ [Node.polygon p] ↔ chain = .polygon p := by
    intro chain
    cases chain <;> simp [Chain.head]
  have hrect : d.rect? (.polygon p) = d.polygonRect? p := rfl
  cases hp : d.polygonRect? p with
  | none =>
    simp only [rects, hp, Option.toList_none]
    exact ⟨[], .nil fun chain hchain => by rw [(hhead chain).mp hchain, hrect, hp]⟩
  | some r =>
    simp only [rects, hp, Option.toList_some]
    refine ⟨[.polygon p], List.nodup_singleton _, fun chain => ?_, by simp [hrect, hp]⟩
    rw [List.mem_singleton, hhead]
    exact ⟨fun h => ⟨h, by simp [h, hrect, hp]⟩, fun h => h.1⟩

/-- The chains from an instance are those from the objects of its template, behind the instance. -/
theorem inst {s : Stamp} (hs : d.stamp? i = some s) (h : d.Listed (d.children s.template) chains (d.flatten s.template)) :
    d.Listed [.inst i] (chains.map (.inst i)) (d.rects (.inst i)) where
  nodup := h.nodup.map fun _ _ heq => (Chain.inst.inj heq).2
  mem_iff chain := by
    cases chain with
    | polygon p => simp [Chain.head]
    | inst k rest =>
      simp only [List.mem_map, Chain.inst.injEq, Chain.head, List.mem_singleton, Node.inst.injEq]
      constructor
      · rintro ⟨rest', hmem, rfl, rfl⟩
        obtain ⟨hhead, hsome⟩ := (h.mem_iff rest').mp hmem
        exact ⟨rfl, by simpa [rect?, hs, hhead] using hsome⟩
      · rintro ⟨rfl, hsome⟩
        by_cases hhead : rest.head ∈ d.children s.template
        · exact ⟨rest, (h.mem_iff rest).mpr ⟨hhead, by simpa [rect?, hs, hhead] using hsome⟩, rfl, rfl⟩
        · simp [rect?, hs, hhead] at hsome
  map_rect := by
    have hrect : ∀ rest ∈ chains, d.rect? (.inst i rest) = (d.rect? rest).map s.draw := by
      intro rest hrest
      have hhead := ((h.mem_iff rest).mp hrest).1
      simp [rect?, hs, hhead]
    simp only [rects, hs]
    calc (chains.map (Chain.inst i)).map d.rect?
        = chains.map fun rest => (d.rect? rest).map s.draw := by
          rw [List.map_map]
          exact List.map_congr_left hrect
      _ = (chains.map d.rect?).map (Option.map s.draw) := by
          rw [List.map_map]
          rfl
      _ = ((d.flatten s.template).map s.draw).map some := by
          rw [h.map_rect, List.map_map, List.map_map]
          rfl

end Listed

/-- The chains from an object of a cell can be listed if those from the objects of its template can. -/
theorem exists_listed_node (ih : ∀ t ∈ d.templates c, ∃ chains, d.Listed (d.children t) chains (d.flatten t)) {n : Node}
    (hn : n ∈ d.children c) : ∃ chains, d.Listed [n] chains (d.rects n) := by
  cases n with
  | cell k => exact ⟨[], .nil fun chain hchain => by cases chain <;> simp [Chain.head] at hchain⟩
  | polygon p => exact Listed.polygon d p
  | inst i =>
    cases hs : d.stamp? i with
    | none =>
      have hrects : d.rects (.inst i) = [] := by simp [rects, hs]
      rw [hrects]
      refine ⟨[], .nil fun chain hchain => ?_⟩
      cases chain with
      | polygon p => simp [Chain.head] at hchain
      | inst k rest =>
        obtain rfl : k = i := Node.inst.inj (List.mem_singleton.mp hchain)
        simp [rect?, hs]
    | some s =>
      obtain ⟨chains, hchains⟩ := ih s.template (template_mem_of_stamp hn hs)
      exact ⟨_, hchains.inst hs⟩

/-- The chains from the objects of a cell that draw anything can be listed in the order of the drawing of the cell. -/
theorem exists_listed (h : d.WellFormed) (c : CellId) : ∃ chains, d.Listed (d.children c) chains (d.flatten c) := by
  induction c using h.template_induction with
  | _ c ih =>
    have hlist : ∀ ns : List Node, ns ⊆ d.children c → ns.Nodup → ∃ chains, d.Listed ns chains (ns.flatMap d.rects) := by
      intro ns hsub hnodup
      induction ns with
      | nil => exact ⟨[], .nil fun _ hmem => absurd hmem List.not_mem_nil⟩
      | cons n ns ihns =>
        obtain ⟨hn, hnodup⟩ := List.nodup_cons.mp hnodup
        obtain ⟨hmem, hsub⟩ := List.cons_subset.mp hsub
        obtain ⟨chains, hchains⟩ := exists_listed_node ih hmem
        obtain ⟨chains', hchains'⟩ := ihns hsub hnodup
        exact ⟨chains ++ chains', hchains.append hchains' (List.singleton_disjoint.mpr hn)⟩
    rw [flatten_eq_flatMap h]
    exact hlist _ (List.Subset.refl _) (h.nodup_children c)

/-! ## The whole drawing -/

/-- From a cell to a template of it, and so on, is never without end. -/
theorem wellFounded_templates (h : d.WellFormed) : WellFounded fun t c => t ∈ d.templates c :=
  Subrelation.wf (fun ht => length_reachable_lt h ht) (measure fun c => (d.reachable c).length).wf

/-- A drawing needs no more levels than there are cells. It is made, in order, of the rectangles of the bound polygons
of the cell and of the drawings of the templates of its placed instances, each under the name of the instance and moved
with the lower left corner of its content to that of the instance. Every chain of placed instances that ends in a bound
polygon is drawn once, and nothing else is drawn; two instances of a template draw the same list under their names, one
translated against the other. -/
theorem flatten_composes (h : d.WellFormed) :
    (WellFounded fun t c => t ∈ d.templates c) ∧
    (∀ c fuel, d.cells.size < fuel → d.flattenFrom fuel c 0 0 [] = d.flatten c) ∧
    (∀ c, d.flatten c = (d.children c).flatMap d.rects) ∧
    (∀ c, ∃ chains : List Chain, chains.Nodup ∧
      (∀ chain, chain ∈ chains ↔ chain.head ∈ d.children c ∧ d.Placed chain) ∧
      chains.map d.rect? = (d.flatten c).map some) ∧
    ∀ i j a b p q, d.instance? i = some a → d.instance? j = some b → a.box = some p → b.box = some q →
      a.template = b.template → d.rects (.inst j) = (d.rects (.inst i)).map fun r =>
        ⟨b.name :: r.path.tail, r.layer, r.box.translate (q.x1 - p.x1) (q.y1 - p.y1)⟩ := by
  refine ⟨wellFounded_templates h, fun c fuel hfuel => ?_, flatten_eq_flatMap h, fun c => ?_, ?_⟩
  · have hle := length_reachable_le h c
    exact flattenFrom_fuel h (by omega) hle 0 0 []
  · obtain ⟨chains, hchains⟩ := exists_listed h c
    exact ⟨chains, hchains.nodup, fun chain => by rw [hchains.mem_iff, isSome_rect_iff], hchains.map_rect⟩
  · exact fun i j a b p q ha hb hp hq ht => rects_eq_map ha hb hp hq ht

/-- A block of a rail and a strap, twice in a top cell, beside an instance that has no box. -/
def twinBlocks : List (Operation Rat) :=
  [.addCell "unit", .addPolygon ⟨0⟩ "strap" "met1", .setBox (.polygon ⟨0⟩) ⟨2, 3, 12, 8⟩, .addPolygon ⟨0⟩ "pad" "met2",
    .addCell "block", .addPolygon ⟨1⟩ "rail" "met3", .setBox (.polygon ⟨2⟩) ⟨0, 0, 20, 1⟩, .addInstance ⟨1⟩ "u" ⟨0⟩,
    .setBox (.inst ⟨0⟩) ⟨1, 1, 11, 6⟩, .addCell "top", .addInstance ⟨2⟩ "a" ⟨1⟩, .setBox (.inst ⟨1⟩) ⟨0, 0, 20, 6⟩,
    .addInstance ⟨2⟩ "spare" ⟨0⟩, .addInstance ⟨2⟩ "b" ⟨1⟩, .setBox (.inst ⟨3⟩) ⟨100, 50, 120, 56⟩]

theorem flatten_composes_twinBlocks : (empty.run twinBlocks).WellFormed ∧
    (empty.run twinBlocks).flattenFrom 9 ⟨1⟩ 0 0 [] = (empty.run twinBlocks).flatten ⟨1⟩ ∧
    (empty.run twinBlocks).flatten ⟨1⟩ =
      [⟨["rail"], "met3", ⟨0, 0, 20, 1⟩⟩, ⟨["u", "strap"], "met1", ⟨1, 1, 11, 6⟩⟩] ∧
    (empty.run twinBlocks).flatten ⟨2⟩ =
      [⟨["a", "rail"], "met3", ⟨0, 0, 20, 1⟩⟩, ⟨["a", "u", "strap"], "met1", ⟨1, 1, 11, 6⟩⟩,
        ⟨["b", "rail"], "met3", ⟨100, 50, 120, 51⟩⟩, ⟨["b", "u", "strap"], "met1", ⟨101, 51, 111, 56⟩⟩] ∧
    (∃ chains : List Chain, chains.Nodup ∧ Chain.inst ⟨3⟩ (.inst ⟨0⟩ (.polygon ⟨0⟩)) ∈ chains ∧ chains.length = 4) ∧
    (empty.run twinBlocks).rects (.inst ⟨3⟩) = ((empty.run twinBlocks).rects (.inst ⟨1⟩)).map fun r =>
      ⟨"b" :: r.path.tail, r.layer, r.box.translate 100 50⟩ := by
  have hd : (empty.run twinBlocks).WellFormed := Reachable.wellFormed ⟨twinBlocks, rfl⟩
  obtain ⟨-, hfuel, hflatten, hchains, htwins⟩ := flatten_composes hd
  have htop : (empty.run twinBlocks).flatten ⟨2⟩ =
      [⟨["a", "rail"], "met3", ⟨0, 0, 20, 1⟩⟩, ⟨["a", "u", "strap"], "met1", ⟨1, 1, 11, 6⟩⟩,
        ⟨["b", "rail"], "met3", ⟨100, 50, 120, 51⟩⟩, ⟨["b", "u", "strap"], "met1", ⟨101, 51, 111, 56⟩⟩] := by
    rw [hflatten]
    decide +kernel
  obtain ⟨chains, hnodup, hmem, hrects⟩ := hchains ⟨2⟩
  refine ⟨hd, hfuel ⟨1⟩ 9 (by decide +kernel), ?_, htop, ⟨chains, hnodup, ?_, ?_⟩, ?_⟩
  · rw [hflatten]
    decide +kernel
  · rw [hmem, ← isSome_rect_iff]
    decide +kernel
  · have hlength := congrArg List.length hrects
    rwa [List.length_map, List.length_map, htop] at hlength
  · refine (htwins ⟨1⟩ ⟨3⟩ ⟨"a", ⟨1⟩, some ⟨0, 0, 20, 6⟩, ⟨2⟩⟩ ⟨"b", ⟨1⟩, some ⟨100, 50, 120, 56⟩, ⟨2⟩⟩ ⟨0, 0, 20, 6⟩
      ⟨100, 50, 120, 56⟩ (by decide +kernel) (by decide +kernel) rfl rfl rfl).trans ?_
    norm_num

end Design

end RectLayout
