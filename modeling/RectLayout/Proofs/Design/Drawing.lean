import Mathlib.Algebra.Order.Field.Rat
import Mathlib.Data.List.Forall2
import Mathlib.Tactic.Ring
import RectLayout.Proofs.Box
import RectLayout.Proofs.Design.Flatten
import RectLayout.Proofs.Frozen

/-!
# What a cell shows

Of a cell, a drawing shows the polygons and the instances that have boxes (`Design.shapes`, `Design.placements`); all
else that it reads is the content of templates (`marks_flattenFrom`). In a reachable design that content is the box
around what the template shows, if it shows anything (`Reachable.contentBox?_eq_tight`).

So a hierarchy can be copied with every cell shifted by a vector of its own (`Design.ShiftedCopy`): an instance of a
shifted cell is drawn at the same place, because only the distance from the corner of its content counts. The copy of a
cell draws what the cell draws, shifted by the vector of that one cell (`marks_flattenFrom_copy`).
-/

namespace RectLayout

/-- A polygon as it is shown: its layer and its box. -/
structure Shape (α : Type) where
  layer : String
  box : Box α
  deriving DecidableEq, Repr

/-- An instance as it is shown: its name, its template and its box. -/
structure Placement (α : Type) where
  name : String
  template : CellId
  box : Box α
  deriving DecidableEq, Repr

/-- A drawn rectangle without the name of its polygon. -/
structure Mark (α : Type) where
  path : List String
  layer : String
  box : Box α
  deriving DecidableEq, Repr

def FlatRect.mark {α : Type} (r : FlatRect α) : Mark α := ⟨r.path.dropLast, r.layer, r.box⟩

namespace Design

section

variable {α : Type} {d e : Design α} {c : CellId}

/-- The bound polygons of a cell. -/
def shapes (d : Design α) (c : CellId) : List (Shape α) :=
  ((d.cell? c).map Cell.polygons).getD [] |>.filterMap fun p => do
    let polygon ← d.polygon? p
    return ⟨polygon.layer, ← polygon.box⟩

/-- The bound instances of a cell. -/
def placements (d : Design α) (c : CellId) : List (Placement α) :=
  ((d.cell? c).map Cell.instances).getD [] |>.filterMap fun i => do
    let inst ← d.instance? i
    return ⟨inst.name, inst.template, ← inst.box⟩

/-- A cell that shows nothing. -/
def ShowsNothing (d : Design α) (c : CellId) : Prop := d.shapes c = [] ∧ d.placements c = []

theorem childBoxes_eq (d : Design α) (c : CellId) :
    d.childBoxes c = (d.shapes c).map Shape.box ++ (d.placements c).map Placement.box := by
  cases hcell : d.cell? c with
  | none => simp [childBoxes, children, shapes, placements, hcell]
  | some cell =>
    simp only [childBoxes, children, shapes, placements, hcell, List.filterMap_append, List.filterMap_map,
      Option.map_some, Option.getD_some, List.map_filterMap]
    congr 1
    · refine List.filterMap_congr fun p _ => ?_
      cases hp : d.polygon? p with
      | none => simp [box?, hp]
      | some x => cases hx : x.box <;> simp [box?, hp, hx]
    · refine List.filterMap_congr fun i _ => ?_
      cases hi : d.instance? i with
      | none => simp [box?, hi]
      | some x => cases hx : x.box <;> simp [box?, hi, hx]

theorem childBoxes_eq_nil_iff : d.childBoxes c = [] ↔ d.ShowsNothing c := by
  simp [childBoxes_eq, ShowsNothing]

/-- The template of a placement is one of the cell's templates. -/
theorem template_mem_of_placement {p : Placement α} (hp : p ∈ d.placements c) : p.template ∈ d.templates c := by
  cases hcell : d.cell? c with
  | none => simp [placements, hcell] at hp
  | some cell =>
    simp only [placements, hcell, Option.map_some, Option.getD_some, List.mem_filterMap, Option.bind_eq_bind,
      Option.pure_def, Option.bind_eq_some_iff, Option.some.injEq] at hp
    obtain ⟨i, hi, inst, hinst, box, -, rfl⟩ := hp
    exact template_mem_templates hcell hi hinst

theorem SameContent.shapes (h : SameContent c d e) : e.shapes c = d.shapes c := by
  rw [Design.shapes, Design.shapes, h.cell]
  refine List.filterMap_congr fun p hp => ?_
  rw [h.polygon p]
  cases hcell : d.cell? c with
  | none => simp [hcell] at hp
  | some cell => simpa [Design.children, hcell] using hp

theorem SameContent.placements (h : SameContent c d e) : e.placements c = d.placements c := by
  rw [Design.placements, Design.placements, h.cell]
  refine List.filterMap_congr fun i hi => ?_
  rw [h.inst i]
  cases hcell : d.cell? c with
  | none => simp [hcell] at hi
  | some cell => simpa [Design.children, hcell] using hi

end

/-! ## Drawings without the names of polygons -/

section

variable {α : Type} [Scalar α] {d e : Design α} {c : CellId}

/-- What a placement draws at an offset below a path. -/
def placementMarks (d : Design α) (fuel : Nat) (dx dy : α) (path : List String) (p : Placement α) : List (Mark α) :=
  match d.contentBox? p.template with
  | none => []
  | some content =>
    (d.flattenFrom fuel p.template (dx + p.box.x1 - content.x1) (dy + p.box.y1 - content.y1)
      (path ++ [p.name])).map FlatRect.mark

/-- The marks of a cell are its shapes, and what its placements draw. -/
theorem marks_flattenFrom (d : Design α) (fuel : Nat) (c : CellId) (dx dy : α) (path : List String) :
    (d.flattenFrom (fuel + 1) c dx dy path).map FlatRect.mark =
      (d.shapes c).map (fun s => ⟨path, s.layer, s.box.translate dx dy⟩) ++
        (d.placements c).flatMap (d.placementMarks fuel dx dy path) := by
  cases hcell : d.cell? c with
  | none => simp [flattenFrom, shapes, placements, hcell]
  | some cell =>
    simp only [flattenFrom, shapes, placements, hcell, Option.map_some, Option.getD_some, List.map_append,
      List.map_flatMap, flatPolygons, List.map_filterMap]
    congr 1
    · refine List.filterMap_congr fun p _ => ?_
      cases d.polygon? p with
      | none => rfl
      | some x => cases hx : x.box <;> simp [hx, FlatRect.mark]
    · induction cell.instances with
      | nil => rfl
      | cons i l ih =>
        rw [List.flatMap_cons, ih]
        cases hi : d.instance? i with
        | none => simp [hi]
        | some inst =>
          cases hbox : inst.box with
          | none => simp [hi, hbox]
          | some box => cases hcontent : d.contentBox? inst.template <;> simp [hi, hbox, hcontent, placementMarks]

theorem flattenFrom_of_showsNothing (h : d.ShowsNothing c) (fuel : Nat) (dx dy : α) (path : List String) :
    d.flattenFrom fuel c dx dy path = [] := by
  cases fuel with
  | zero => rfl
  | succ fuel =>
    have hmarks := marks_flattenFrom d fuel c dx dy path
    rw [h.1, h.2] at hmarks
    exact List.map_eq_nil_iff.mp hmarks

theorem placementMarks_of_showsNothing {p : Placement α} (h : d.ShowsNothing p.template) (fuel : Nat) (dx dy : α)
    (path : List String) : d.placementMarks fuel dx dy path p = [] := by
  unfold placementMarks
  split
  · rfl
  · rw [flattenFrom_of_showsNothing h, List.map_nil]

/-- In a reachable design the content of a cell that shows something is the box around what it shows. -/
theorem Reachable.contentBox?_eq_tight (h : d.Reachable) (hc : ¬ d.ShowsNothing c) :
    d.contentBox? c = Box.tight? (d.childBoxes c) := by
  rw [← childBoxes_eq_nil_iff] at hc
  cases hb : d.frozenBox? c with
  | some b =>
    have hchildren : d.children c ≠ [] := fun hnil => hc (by simp [childBoxes, hnil])
    rw [(h.sealed hb).tight hchildren, contentBox?]
    cases hcell : d.cell? c with
    | none => simp [frozenBox?, hcell] at hb
    | some cell =>
      have hfrozen : cell.frozen = some b := by simpa [frozenBox?, hcell] using hb
      simp [hfrozen]
  | none =>
    cases hcell : d.cell? c with
    | none => simp [childBoxes, children, hcell] at hc
    | some cell =>
      have hfrozen : cell.frozen = none := by simpa [frozenBox?, hcell] using hb
      obtain ⟨b, l, hl⟩ := List.exists_cons_of_ne_nil hc
      simp [contentBox?, hcell, hfrozen, hl, Box.tight?]

end

/-! ## Lower left corners -/

/-- The lower left corner of `b` is that of `a` moved back by a vector. -/
def CornerMoved (o : Rat × Rat) (a b : Box Rat) : Prop := b.x1 = a.x1 - o.1 ∧ b.y1 = a.y1 - o.2

theorem cornerMoved_union {o : Rat × Rat} {a a' b b' : Box Rat} (ha : CornerMoved o a a') (hb : CornerMoved o b b') :
    CornerMoved o (a.union b) (a'.union b') := by
  have hmin : ∀ x y z : Rat, (if x - z ≤ y - z then x - z else y - z) = (if x ≤ y then x else y) - z := by
    intro x y z
    by_cases hxy : x ≤ y
    · rw [if_pos hxy, if_pos (sub_le_sub_right hxy z)]
    · rw [if_neg hxy, if_neg fun h => hxy ((sub_le_sub_iff_right z).mp h)]
  constructor
  · show (if a'.x1 ≤ b'.x1 then a'.x1 else b'.x1) = (if a.x1 ≤ b.x1 then a.x1 else b.x1) - o.1
    rw [ha.1, hb.1]
    exact hmin _ _ _
  · show (if a'.y1 ≤ b'.y1 then a'.y1 else b'.y1) = (if a.y1 ≤ b.y1 then a.y1 else b.y1) - o.2
    rw [ha.2, hb.2]
    exact hmin _ _ _

/-- The corner of the box around others moves with their corners. -/
theorem cornerMoved_tight {o : Rat × Rat} {l l' : List (Box Rat)} {b b' : Box Rat}
    (h : List.Forall₂ (CornerMoved o) l l') (hb : Box.tight? l = some b) (hb' : Box.tight? l' = some b') :
    CornerMoved o b b' := by
  have hfold : ∀ {l l' : List (Box Rat)}, List.Forall₂ (CornerMoved o) l l' → ∀ {a a' : Box Rat},
      CornerMoved o a a' → CornerMoved o (l.foldl Box.union a) (l'.foldl Box.union a') := by
    intro l l' hl
    induction hl with
    | nil => exact id
    | cons hc _ ih => exact fun ha => ih (cornerMoved_union ha hc)
  cases h with
  | nil => cases hb
  | cons ha hl =>
    rw [← Option.some.inj hb, ← Option.some.inj hb']
    exact hfold hl ha

/-! ## Copies -/

theorem translate_neg_translate (b : Box Rat) (x y dx dy : Rat) :
    (b.translate (-x) (-y)).translate (dx + x) (dy + y) = b.translate dx dy := by
  rw [Box.translate_translate]
  congr 1 <;> ring

/-- `k` in `e` shows what `c` shows in `d`, moved back by the vector of `c`: polygons with their layers and boxes, and
instances with their names and the corners of their boxes, of templates that `R` relates. -/
structure ShiftedCopy (d e : Design Rat) (shift : CellId → Rat × Rat) (R : CellId → CellId → Prop) (c k : CellId) :
    Prop where
  shapes : e.shapes k = (d.shapes c).map fun s => ⟨s.layer, s.box.translate (-(shift c).1) (-(shift c).2)⟩
  placements : List.Forall₂ (fun p q => q.name = p.name ∧ R p.template q.template ∧ CornerMoved (shift c) p.box q.box)
    (d.placements c) (e.placements k)

namespace ShiftedCopy

variable {d e : Design Rat} {shift : CellId → Rat × Rat} {R : CellId → CellId → Prop} {c k : CellId}

theorem showsNothing (h : ShiftedCopy d e shift R c k) : e.ShowsNothing k ↔ d.ShowsNothing c := by
  have hp : e.placements k = [] ↔ d.placements c = [] := by
    rw [← List.length_eq_zero_iff, ← h.placements.length_eq, List.length_eq_zero_iff]
  rw [ShowsNothing, ShowsNothing, h.shapes, List.map_eq_nil_iff, hp]

/-- A cell stays a copy while it keeps its content and more copies of templates are there. -/
theorem mono (h : ShiftedCopy d e shift R c k) {e' : Design Rat} (hk : SameContent k e e')
    {R' : CellId → CellId → Prop} (hR : ∀ a b, R a b → R' a b) : ShiftedCopy d e' shift R' c k :=
  ⟨hk.shapes.trans h.shapes, by rw [hk.placements]; exact h.placements.imp fun _ _ h => ⟨h.1, hR _ _ h.2.1, h.2.2⟩⟩

/-- The boxes of the copy have the corners of the original, moved back. -/
theorem cornerMoved_childBoxes (h : ShiftedCopy d e shift R c k) :
    List.Forall₂ (CornerMoved (shift c)) (d.childBoxes c) (e.childBoxes k) := by
  rw [childBoxes_eq, childBoxes_eq, h.shapes, List.map_map]
  refine List.rel_append ?_ ?_
  · rw [List.forall₂_map_left_iff, List.forall₂_map_right_iff, List.forall₂_same]
    exact fun s _ => ⟨by simp [Box.translate, sub_eq_add_neg], by simp [Box.translate, sub_eq_add_neg]⟩
  · rw [List.forall₂_map_left_iff, List.forall₂_map_right_iff]
    exact h.placements.imp fun p q hpq => hpq.2.2

/-- The content of a copy that shows something has the corner of the original's content, moved back. -/
theorem exists_content (hd : d.Reachable) (he : e.Reachable) (h : ShiftedCopy d e shift R c k)
    (hc : ¬ d.ShowsNothing c) : ∃ content content', d.contentBox? c = some content ∧
      e.contentBox? k = some content' ∧ CornerMoved (shift c) content content' := by
  have hk : ¬ e.ShowsNothing k := fun hk => hc (h.showsNothing.mp hk)
  rw [hd.contentBox?_eq_tight hc, he.contentBox?_eq_tight hk]
  obtain ⟨b, l, hl⟩ := List.exists_cons_of_ne_nil fun hnil => hc (childBoxes_eq_nil_iff.mp hnil)
  obtain ⟨b', l', hl'⟩ := List.exists_cons_of_ne_nil fun hnil => hk (childBoxes_eq_nil_iff.mp hnil)
  have hb : Box.tight? (d.childBoxes c) = some (l.foldl Box.union b) := by rw [hl]; rfl
  have hb' : Box.tight? (e.childBoxes k) = some (l'.foldl Box.union b') := by rw [hl']; rfl
  exact ⟨_, _, hb, hb', cornerMoved_tight h.cornerMoved_childBoxes hb hb'⟩

end ShiftedCopy

/-- A copy of a hierarchy, each cell of which is moved back by a vector of its own, draws the same. -/
theorem marks_flattenFrom_copy {d e : Design Rat} {shift : CellId → Rat × Rat} {R : CellId → CellId → Prop}
    (hd : d.Reachable) (he : e.Reachable) (hcopy : ∀ c k, R c k → ShiftedCopy d e shift R c k) (fuel : Nat)
    {c k : CellId} (hck : R c k) (dx dy : Rat) (path : List String) :
    (e.flattenFrom fuel k (dx + (shift c).1) (dy + (shift c).2) path).map FlatRect.mark =
      (d.flattenFrom fuel c dx dy path).map FlatRect.mark := by
  induction fuel generalizing c k dx dy path with
  | zero => rfl
  | succ fuel ih =>
    have h := hcopy c k hck
    rw [marks_flattenFrom, marks_flattenFrom, h.shapes, List.map_map]
    congr 1
    · refine List.map_congr_left fun s _ => ?_
      simp only [Function.comp_apply, translate_neg_translate]
    · have hplacements := h.placements
      generalize d.placements c = ps at hplacements
      generalize e.placements k = qs at hplacements
      induction hplacements with
      | nil => rfl
      | @cons p q ps qs hpq _ ihps =>
        rw [List.flatMap_cons, List.flatMap_cons, ihps]
        congr 1
        obtain ⟨hname, hR, hx, hy⟩ := hpq
        have ht := hcopy _ _ hR
        by_cases hnothing : d.ShowsNothing p.template
        · rw [placementMarks_of_showsNothing hnothing, placementMarks_of_showsNothing (ht.showsNothing.mpr hnothing)]
        · obtain ⟨content, content', hcontent, hcontent', hx', hy'⟩ := ht.exists_content hd he hnothing
          rw [placementMarks, placementMarks, hcontent, hcontent', hname]
          simp only
          rw [← ih hR]
          congr 2
          · rw [hx, hx']; ring
          · rw [hy, hy']; ring

end Design

end RectLayout
