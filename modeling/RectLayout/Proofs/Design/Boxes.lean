import Mathlib.Data.Set.Basic
import RectLayout.Design.Basic

/-!
# Designs that differ in boxes

`AgreeOutside S d e` says that `e` is `d` but for the stored boxes of the nodes of `S`. It is an equivalence, and
writing the box of a node of `S` keeps it (`agreeOutside_writeBox`). What a design says of its structure does not
depend on boxes: names, owners, children, templates, which cells are frozen, and so which are active. Two designs that
agree outside no node at all are equal (`AgreeOutside.eq`).
-/

namespace RectLayout

variable {α : Type}

/-- The cell without its own box. -/
def Cell.unboxed (c : Cell α) : Cell α := { c with box := none }

/-- The polygon without its box. -/
def Polygon.unboxed (p : Polygon α) : Polygon α := { p with box := none }

/-- The instance without its box. -/
def Instance.unboxed (i : Instance α) : Instance α := { i with box := none }

namespace Design

/-! ## Look-up after a change -/

theorem cell?_modifyCell (d : Design α) (c k : CellId) (f : Cell α → Cell α) :
    (d.modifyCell c f).cell? k = if c = k then (d.cell? k).map f else d.cell? k := by
  obtain ⟨c⟩ := c
  obtain ⟨k⟩ := k
  simp [modifyCell, cell?, Array.getElem?_modify]

@[simp] theorem polygon?_modifyCell (d : Design α) (c : CellId) (f : Cell α → Cell α) (p : PolygonId) :
    (d.modifyCell c f).polygon? p = d.polygon? p := rfl

@[simp] theorem instance?_modifyCell (d : Design α) (c : CellId) (f : Cell α → Cell α) (i : InstanceId) :
    (d.modifyCell c f).instance? i = d.instance? i := rfl

theorem cell?_writeBox (d : Design α) (n : Node) (b : Option (Box α)) (c : CellId) :
    (d.writeBox n b).cell? c =
      if n = .cell c then (d.cell? c).map fun cell => { cell with box := b } else d.cell? c := by
  cases n with
  | cell k => simp [writeBox, cell?_modifyCell]
  | polygon p => simp [writeBox, cell?]
  | inst i => simp [writeBox, cell?]

theorem polygon?_writeBox (d : Design α) (n : Node) (b : Option (Box α)) (p : PolygonId) :
    (d.writeBox n b).polygon? p =
      if n = .polygon p then (d.polygon? p).map fun polygon => { polygon with box := b } else d.polygon? p := by
  obtain ⟨p⟩ := p
  cases n with
  | cell k => simp [writeBox]
  | polygon q => obtain ⟨q⟩ := q; simp [writeBox, polygon?, Array.getElem?_modify]
  | inst i => simp [writeBox, polygon?]

theorem instance?_writeBox (d : Design α) (n : Node) (b : Option (Box α)) (i : InstanceId) :
    (d.writeBox n b).instance? i =
      if n = .inst i then (d.instance? i).map fun inst => { inst with box := b } else d.instance? i := by
  obtain ⟨i⟩ := i
  cases n with
  | cell k => simp [writeBox]
  | polygon q => simp [writeBox, instance?]
  | inst j => obtain ⟨j⟩ := j; simp [writeBox, instance?, Array.getElem?_modify]

/-! ## Stored boxes -/

/-- The box that is stored with an object. Unlike `box?` it does not prefer the box of a frozen cell's content. -/
def stored? (d : Design α) (n : Node) : Option (Box α) :=
  match n with
  | .cell c => (d.cell? c).bind Cell.box
  | .polygon p => (d.polygon? p).bind Polygon.box
  | .inst i => (d.instance? i).bind Instance.box

/-- A write changes the box of one object, if that exists. -/
theorem stored?_writeBox (d : Design α) (n m : Node) (b : Option (Box α)) :
    (d.writeBox n b).stored? m = if n = m ∧ (d.owner? m).isSome then b else d.stored? m := by
  cases m with
  | cell c =>
    simp only [stored?, cell?_writeBox, owner?, Option.isSome_map]
    by_cases h : n = .cell c <;> cases hc : d.cell? c <;> simp [h]
  | polygon p =>
    simp only [stored?, polygon?_writeBox, owner?, Option.isSome_map]
    by_cases h : n = .polygon p <;> cases hp : d.polygon? p <;> simp [h]
  | inst i =>
    simp only [stored?, instance?_writeBox, owner?, Option.isSome_map]
    by_cases h : n = .inst i <;> cases hi : d.instance? i <;> simp [h]

/-! ## Agreement outside a set of nodes -/

/-- `e` is `d` but for the stored boxes of the nodes of `S`. -/
structure AgreeOutside (S : Set Node) (d e : Design α) : Prop where
  cell : ∀ c, (d.cell? c).map Cell.unboxed = (e.cell? c).map Cell.unboxed
  polygon : ∀ p, (d.polygon? p).map Polygon.unboxed = (e.polygon? p).map Polygon.unboxed
  inst : ∀ i, (d.instance? i).map Instance.unboxed = (e.instance? i).map Instance.unboxed
  stored : ∀ n, n ∉ S → d.stored? n = e.stored? n

namespace AgreeOutside

variable {S T : Set Node} {d e f : Design α}

theorem refl (S : Set Node) (d : Design α) : AgreeOutside S d d :=
  ⟨fun _ => rfl, fun _ => rfl, fun _ => rfl, fun _ _ => rfl⟩

theorem symm (h : AgreeOutside S d e) : AgreeOutside S e d :=
  ⟨fun c => (h.cell c).symm, fun p => (h.polygon p).symm, fun i => (h.inst i).symm, fun n hn => (h.stored n hn).symm⟩

theorem trans (h : AgreeOutside S d e) (h' : AgreeOutside S e f) : AgreeOutside S d f :=
  ⟨fun c => (h.cell c).trans (h'.cell c), fun p => (h.polygon p).trans (h'.polygon p),
    fun i => (h.inst i).trans (h'.inst i), fun n hn => (h.stored n hn).trans (h'.stored n hn)⟩

theorem mono (hST : S ⊆ T) (h : AgreeOutside S d e) : AgreeOutside T d e :=
  ⟨h.cell, h.polygon, h.inst, fun n hn => h.stored n fun hS => hn (hST hS)⟩

end AgreeOutside

/-- Writing the box of a node of `S` changes nothing outside `S`. -/
theorem agreeOutside_writeBox {S : Set Node} {n : Node} (hn : n ∈ S) (d : Design α) (b : Option (Box α)) :
    AgreeOutside S d (d.writeBox n b) where
  cell c := by
    rw [cell?_writeBox]
    split
    · rw [Option.map_map]; rfl
    · rfl
  polygon p := by
    rw [polygon?_writeBox]
    split
    · rw [Option.map_map]; rfl
    · rfl
  inst i := by
    rw [instance?_writeBox]
    split
    · rw [Option.map_map]; rfl
    · rfl
  stored m hm := by
    rw [stored?_writeBox, if_neg]
    rintro ⟨rfl, -⟩
    exact hm hn

namespace AgreeOutside

variable {S : Set Node} {d e : Design α}

/-! ## What does not depend on boxes -/

theorem cell_cases (h : AgreeOutside S d e) (c : CellId) : d.cell? c = none ∧ e.cell? c = none ∨
    ∃ (x : Cell α) (b : Option (Box α)), d.cell? c = some x ∧ e.cell? c = some { x with box := b } := by
  have hc := h.cell c
  cases hd : d.cell? c with
  | none =>
    rw [hd] at hc
    exact .inl ⟨rfl, by simpa using hc.symm⟩
  | some x =>
    rw [hd] at hc
    obtain ⟨y, hy, hxy⟩ := Option.map_eq_some_iff.mp hc.symm
    refine .inr ⟨x, y.box, rfl, ?_⟩
    cases x
    cases y
    simp_all [Cell.unboxed]

theorem polygon_cases (h : AgreeOutside S d e) (p : PolygonId) : d.polygon? p = none ∧ e.polygon? p = none ∨
    ∃ (x : Polygon α) (b : Option (Box α)), d.polygon? p = some x ∧ e.polygon? p = some { x with box := b } := by
  have hp := h.polygon p
  cases hd : d.polygon? p with
  | none =>
    rw [hd] at hp
    exact .inl ⟨rfl, by simpa using hp.symm⟩
  | some x =>
    rw [hd] at hp
    obtain ⟨y, hy, hxy⟩ := Option.map_eq_some_iff.mp hp.symm
    refine .inr ⟨x, y.box, rfl, ?_⟩
    cases x
    cases y
    simp_all [Polygon.unboxed]

theorem instance_cases (h : AgreeOutside S d e) (i : InstanceId) : d.instance? i = none ∧ e.instance? i = none ∨
    ∃ (x : Instance α) (b : Option (Box α)), d.instance? i = some x ∧ e.instance? i = some { x with box := b } := by
  have hi := h.inst i
  cases hd : d.instance? i with
  | none =>
    rw [hd] at hi
    exact .inl ⟨rfl, by simpa using hi.symm⟩
  | some x =>
    rw [hd] at hi
    obtain ⟨y, hy, hxy⟩ := Option.map_eq_some_iff.mp hi.symm
    refine .inr ⟨x, y.box, rfl, ?_⟩
    cases x
    cases y
    simp_all [Instance.unboxed]

theorem name (h : AgreeOutside S d e) (n : Node) : d.name n = e.name n := by
  cases n with
  | cell c => rcases h.cell_cases c with ⟨hd, he⟩ | ⟨x, b, hd, he⟩ <;> simp [Design.name, hd, he]
  | polygon p => rcases h.polygon_cases p with ⟨hd, he⟩ | ⟨x, b, hd, he⟩ <;> simp [Design.name, hd, he]
  | inst i => rcases h.instance_cases i with ⟨hd, he⟩ | ⟨x, b, hd, he⟩ <;> simp [Design.name, hd, he]

theorem owner (h : AgreeOutside S d e) (n : Node) : d.owner? n = e.owner? n := by
  cases n with
  | cell c => rcases h.cell_cases c with ⟨hd, he⟩ | ⟨x, b, hd, he⟩ <;> simp [owner?, hd, he]
  | polygon p => rcases h.polygon_cases p with ⟨hd, he⟩ | ⟨x, b, hd, he⟩ <;> simp [owner?, hd, he]
  | inst i => rcases h.instance_cases i with ⟨hd, he⟩ | ⟨x, b, hd, he⟩ <;> simp [owner?, hd, he]

theorem children (h : AgreeOutside S d e) (c : CellId) : d.children c = e.children c := by
  rcases h.cell_cases c with ⟨hd, he⟩ | ⟨x, b, hd, he⟩ <;> simp [Design.children, hd, he]

theorem constraints (h : AgreeOutside S d e) (c : CellId) :
    (d.cell? c).map Cell.constraints = (e.cell? c).map Cell.constraints := by
  rcases h.cell_cases c with ⟨hd, he⟩ | ⟨x, b, hd, he⟩ <;> simp [hd, he]

theorem frozen (h : AgreeOutside S d e) (c : CellId) :
    (d.cell? c).bind Cell.frozen = (e.cell? c).bind Cell.frozen := by
  rcases h.cell_cases c with ⟨hd, he⟩ | ⟨x, b, hd, he⟩ <;> simp [hd, he]

theorem isActive (h : AgreeOutside S d e) (c : CellId) : d.isActive c = e.isActive c := by
  rcases h.cell_cases c with ⟨hd, he⟩ | ⟨x, b, hd, he⟩ <;> simp [Design.isActive, hd, he, Cell.isFrozen]

theorem template (h : AgreeOutside S d e) (i : InstanceId) :
    (d.instance? i).map Instance.template = (e.instance? i).map Instance.template := by
  rcases h.instance_cases i with ⟨hd, he⟩ | ⟨x, b, hd, he⟩ <;> simp [hd, he]

theorem templates (h : AgreeOutside S d e) (c : CellId) : d.templates c = e.templates c := by
  rcases h.cell_cases c with ⟨hd, he⟩ | ⟨x, b, hd, he⟩ <;> simp [Design.templates, hd, he, h.template]

theorem activeTemplates (h : AgreeOutside S d e) : d.activeTemplates = e.activeTemplates := by
  funext c
  rw [Design.activeTemplates, Design.activeTemplates, h.templates, funext h.isActive]

theorem cells_size (h : AgreeOutside S d e) : d.cells.size = e.cells.size := by
  have key : ∀ n, d.cells.size ≤ n ↔ e.cells.size ≤ n := fun n => by
    rw [← Array.getElem?_eq_none_iff, ← Array.getElem?_eq_none_iff]
    rcases h.cell_cases ⟨n⟩ with ⟨hd, he⟩ | ⟨x, b, hd, he⟩
    · exact ⟨fun _ => he, fun _ => hd⟩
    · simp only [cell?] at hd he
      simp [hd, he]
  exact Nat.le_antisymm ((key _).mpr (Nat.le_refl _)) ((key _).mp (Nat.le_refl _))

/-- Outside `S` the boxes are the same, those of frozen cells included. -/
theorem box (h : AgreeOutside S d e) {n : Node} (hn : n ∉ S) : d.box? n = e.box? n := by
  cases n with
  | cell c =>
    have hs := h.stored _ hn
    rcases h.cell_cases c with ⟨hd, he⟩ | ⟨x, b, hd, he⟩
    · simp [box?, hd, he]
    · simp only [stored?, hd, he, Option.bind_some] at hs
      simp [box?, hd, he, hs]
  | polygon p => exact h.stored _ hn
  | inst i => exact h.stored _ hn

/-- Outside `S` cells are the same. -/
theorem cell_eq (h : AgreeOutside S d e) {c : CellId} (hc : .cell c ∉ S) : d.cell? c = e.cell? c := by
  have hs := h.stored _ hc
  rcases h.cell_cases c with ⟨hd, he⟩ | ⟨x, b, hd, he⟩
  · rw [hd, he]
  · simp only [stored?, hd, he, Option.bind_some] at hs
    rw [hd, he, ← hs]

/-- Outside `S` polygons are the same. -/
theorem polygon_eq (h : AgreeOutside S d e) {p : PolygonId} (hp : .polygon p ∉ S) : d.polygon? p = e.polygon? p := by
  have hs := h.stored _ hp
  rcases h.polygon_cases p with ⟨hd, he⟩ | ⟨x, b, hd, he⟩
  · rw [hd, he]
  · simp only [stored?, hd, he, Option.bind_some] at hs
    rw [hd, he, ← hs]

/-- Outside `S` instances are the same. -/
theorem instance_eq (h : AgreeOutside S d e) {i : InstanceId} (hi : .inst i ∉ S) : d.instance? i = e.instance? i := by
  have hs := h.stored _ hi
  rcases h.instance_cases i with ⟨hd, he⟩ | ⟨x, b, hd, he⟩
  · rw [hd, he]
  · simp only [stored?, hd, he, Option.bind_some] at hs
    rw [hd, he, ← hs]

/-- Designs that agree everywhere are equal. -/
theorem eq (h : AgreeOutside ∅ d e) : d = e := by
  obtain ⟨cells, polygons, instances⟩ := d
  obtain ⟨cells', polygons', instances'⟩ := e
  have hc : cells = cells' := Array.ext_getElem? fun k => h.cell_eq (c := ⟨k⟩) (Set.notMem_empty _)
  have hp : polygons = polygons' := Array.ext_getElem? fun k => h.polygon_eq (p := ⟨k⟩) (Set.notMem_empty _)
  have hi : instances = instances' := Array.ext_getElem? fun k => h.instance_eq (i := ⟨k⟩) (Set.notMem_empty _)
  rw [hc, hp, hi]

end AgreeOutside

end Design

end RectLayout
