import RectLayout.Design.Freeze
import RectLayout.Proofs.Design.Boxes

/-!
# What an edit does

One lemma for each edit: if it succeeds, the cell that it changes exists and is not frozen, what it names exists, and
the design is the old one with one object or constraint more, one box replaced, or one cell frozen or unfrozen.
-/

namespace RectLayout.Design

variable {α : Type} {d d' : Design α} {c : CellId}

/-! ## One object more -/

/-- The design with a polygon that no cell lists yet. -/
def withPolygon (d : Design α) (x : Polygon α) : Design α := { d with polygons := d.polygons.push x }

/-- The design with an instance that no cell lists yet. -/
def withInstance (d : Design α) (x : Instance α) : Design α := { d with instances := d.instances.push x }

@[simp] theorem cell?_withPolygon (d : Design α) (x : Polygon α) (k : CellId) :
    (d.withPolygon x).cell? k = d.cell? k := rfl

@[simp] theorem instance?_withPolygon (d : Design α) (x : Polygon α) (i : InstanceId) :
    (d.withPolygon x).instance? i = d.instance? i := rfl

theorem polygon?_withPolygon (d : Design α) (x : Polygon α) (p : PolygonId) :
    (d.withPolygon x).polygon? p = if p = ⟨d.polygons.size⟩ then some x else d.polygon? p := by
  obtain ⟨p⟩ := p
  simp [withPolygon, polygon?, Array.getElem?_push]

@[simp] theorem cell?_withInstance (d : Design α) (x : Instance α) (k : CellId) :
    (d.withInstance x).cell? k = d.cell? k := rfl

@[simp] theorem polygon?_withInstance (d : Design α) (x : Instance α) (p : PolygonId) :
    (d.withInstance x).polygon? p = d.polygon? p := rfl

theorem instance?_withInstance (d : Design α) (x : Instance α) (i : InstanceId) :
    (d.withInstance x).instance? i = if i = ⟨d.instances.size⟩ then some x else d.instance? i := by
  obtain ⟨i⟩ := i
  simp [withInstance, instance?, Array.getElem?_push]

theorem cell?_addCell (d : Design α) (name : String) (k : CellId) :
    (d.addCell name).1.cell? k = if k = ⟨d.cells.size⟩ then some (.ofName name) else d.cell? k := by
  obtain ⟨k⟩ := k
  simp [addCell, cell?, Array.getElem?_push]

theorem cell?_size (d : Design α) : d.cell? ⟨d.cells.size⟩ = none := by simp [cell?]

theorem polygon?_size (d : Design α) : d.polygon? ⟨d.polygons.size⟩ = none := by simp [polygon?]

theorem instance?_size (d : Design α) : d.instance? ⟨d.instances.size⟩ = none := by simp [instance?]

/-! ## The edits -/

theorem getCell_ok {cell : Cell α} (h : d.getCell c = .ok cell) : d.cell? c = some cell := by
  unfold getCell at h
  split at h
  · rename_i x hx
    rw [hx, Except.ok.inj h]
  · cases h

theorem getUnfrozen_ok {cell : Cell α} (h : d.getUnfrozen c = .ok cell) :
    d.cell? c = some cell ∧ cell.frozen = none := by
  unfold getUnfrozen at h
  cases hc : d.getCell c with
  | error e => simp [hc, bind, Except.bind] at h
  | ok x =>
    simp only [hc, bind, Except.bind] at h
    split at h
    · cases h
    · rename_i hf
      cases h
      exact ⟨getCell_ok hc, by simpa [Cell.isFrozen] using hf⟩

theorem getOwner_ok {n : Node} (h : d.getOwner n = .ok c) : d.owner? n = some c := by
  unfold getOwner at h
  split at h
  · rename_i x hx
    rw [hx, Except.ok.inj h]
  · cases h

/-- A new polygon is the last of an unfrozen cell. -/
theorem addPolygon_ok {name layer : String} {p : PolygonId} (h : d.addPolygon c name layer = .ok (d', p)) :
    ∃ cell, d.cell? c = some cell ∧ cell.frozen = none ∧ p = ⟨d.polygons.size⟩ ∧
      d' = (d.withPolygon ⟨name, layer, none, c⟩).modifyCell c fun cell =>
        { cell with polygons := cell.polygons ++ [p] } := by
  unfold addPolygon at h
  cases hc : d.getUnfrozen c with
  | error e => simp [hc, bind, Except.bind] at h
  | ok cell =>
    simp only [hc, bind, Except.bind, pure, Except.pure, Except.ok.injEq, Prod.mk.injEq] at h
    obtain ⟨rfl, rfl⟩ := h
    exact ⟨cell, (getUnfrozen_ok hc).1, (getUnfrozen_ok hc).2, rfl, rfl⟩

/-- A new instance is the last of an unfrozen cell, which its template does not draw. -/
theorem addInstance_ok {name : String} {t : CellId} {i : InstanceId} (h : d.addInstance c name t = .ok (d', i)) :
    ∃ cell, d.cell? c = some cell ∧ cell.frozen = none ∧ (d.cell? t).isSome ∧ c ∉ d.reachable t ∧
      i = ⟨d.instances.size⟩ ∧ d' = (d.withInstance ⟨name, t, none, c⟩).modifyCell c fun cell =>
        { cell with instances := cell.instances ++ [i] } := by
  unfold addInstance at h
  cases hc : d.getUnfrozen c with
  | error e => simp [hc, bind, Except.bind] at h
  | ok cell =>
    cases ht : d.getCell t with
    | error e => simp [hc, ht, bind, Except.bind] at h
    | ok drawn =>
      simp only [hc, ht, bind, Except.bind, pure, Except.pure] at h
      split at h
      · cases h
      · rename_i hr
        simp only [Except.ok.injEq, Prod.mk.injEq] at h
        obtain ⟨rfl, rfl⟩ := h
        have htemplate : (d.cell? t).isSome := by rw [getCell_ok ht]; rfl
        exact ⟨cell, (getUnfrozen_ok hc).1, (getUnfrozen_ok hc).2, htemplate, by simpa using hr, rfl, rfl⟩

/-- A new constraint is the last of an unfrozen cell, and what it names exists. -/
theorem constrain_ok {subject : Node} {clause : String} {object : Option Node}
    (h : d.constrain c subject clause object = .ok d') :
    ∃ cell, d.cell? c = some cell ∧ cell.frozen = none ∧ (d.owner? subject).isSome ∧
      (∀ n ∈ object, (d.owner? n).isSome) ∧ d' = d.modifyCell c fun cell =>
        { cell with constraints := cell.constraints ++ [⟨subject, clause, object⟩] } := by
  unfold constrain at h
  cases hc : d.getUnfrozen c with
  | error e => simp [hc, bind, Except.bind] at h
  | ok cell =>
    cases hs : d.getOwner subject with
    | error e => simp [hc, hs, bind, Except.bind] at h
    | ok k =>
      cases object with
      | none =>
        simp only [hc, hs, bind, Except.bind, Option.mapM_none, pure, Except.pure, Except.ok.injEq] at h
        exact ⟨cell, (getUnfrozen_ok hc).1, (getUnfrozen_ok hc).2, by rw [getOwner_ok hs]; rfl, by simp, h.symm⟩
      | some n =>
        cases hn : d.getOwner n with
        | error e => simp [hc, hs, hn, bind, Except.bind, Functor.map, Except.map] at h
        | ok m =>
          simp only [hc, hs, hn, bind, Except.bind, Option.mapM_some, Functor.map, Except.map, pure, Except.pure,
            Except.ok.injEq] at h
          refine ⟨cell, (getUnfrozen_ok hc).1, (getUnfrozen_ok hc).2, by rw [getOwner_ok hs]; rfl, ?_, h.symm⟩
          intro k hk
          cases hk
          rw [getOwner_ok hn]; rfl

/-- A box is set on an object of an unfrozen cell, or on the cell. -/
theorem setBox_ok {n : Node} {b : Box α} (h : d.setBox n b = .ok d') :
    ∃ k cell, d.owner? n = some k ∧ d.cell? k = some cell ∧ cell.frozen = none ∧ d' = d.writeBox n (some b) := by
  unfold setBox at h
  cases hn : d.getOwner n with
  | error e => simp [hn, bind, Except.bind] at h
  | ok k =>
    cases hk : d.getUnfrozen k with
    | error e => simp [hn, hk, bind, Except.bind] at h
    | ok cell =>
      simp only [hn, hk, bind, Except.bind, pure, Except.pure, Except.ok.injEq] at h
      exact ⟨k, cell, getOwner_ok hn, (getUnfrozen_ok hk).1, (getUnfrozen_ok hk).2, h.symm⟩

/-- The cell is unfrozen, and nothing else changes. -/
theorem unfreeze_ok (h : d.unfreeze c = .ok d') :
    (d.cell? c).isSome ∧ d' = d.modifyCell c fun cell => { cell with frozen := none } := by
  unfold unfreeze at h
  cases hc : d.getCell c with
  | error e => simp [hc, bind, Except.bind] at h
  | ok cell =>
    simp only [hc, bind, Except.bind, pure, Except.pure, Except.ok.injEq] at h
    exact ⟨by rw [getCell_ok hc]; rfl, h.symm⟩

/-- A cell is frozen already, or all its objects have boxes and it is frozen with the box around them, or with its own
if there are none. -/
theorem freeze_ok [Scalar α] {b : Box α} (h : d.freeze c = .ok (d', b)) : ∃ cell, d.cell? c = some cell ∧
    (cell.frozen = some b ∧ d' = d ∨
      cell.frozen = none ∧ (∀ n ∈ d.children c, (d.box? n).isSome) ∧
        (Box.tight? (d.childBoxes c)).or cell.box = some b ∧
        d' = d.modifyCell c fun cell => { cell with box := some b, frozen := some b }) := by
  unfold freeze at h
  cases hc : d.getCell c with
  | error e => simp [hc, bind, Except.bind] at h
  | ok cell =>
    refine ⟨cell, getCell_ok hc, ?_⟩
    simp only [hc, bind, Except.bind, pure, Except.pure] at h
    split at h
    · rename_i box hbox
      simp only [Except.ok.injEq, Prod.mk.injEq] at h
      obtain ⟨rfl, rfl⟩ := h
      exact .inl ⟨hbox, rfl⟩
    · rename_i hf
      split at h
      · cases h
      · rename_i hfind
        split at h
        · cases h
        · rename_i box hbox
          simp only [Except.ok.injEq, Prod.mk.injEq] at h
          obtain ⟨rfl, rfl⟩ := h
          exact .inr ⟨hf, by simpa [Option.isSome_iff_ne_none] using hfind, hbox, rfl⟩

end RectLayout.Design
