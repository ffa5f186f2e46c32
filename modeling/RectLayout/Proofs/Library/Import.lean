import RectLayout.Library.Import
import RectLayout.Proofs.Design.Fill
import RectLayout.Proofs.Library.Drawing

/-!
# What an import builds

Importing the content of one cell, whose layers are known and whose templates are there, succeeds and adds one cell: it
shows a shape for each rectangle and a placement for each reference, in order (`importContent_ok`). All edits are
those that anyone can make, so an import leads from reachable designs to reachable ones; and it keeps all cells that
were there. What every such step keeps, the import of a cell with all that it refers to keeps (`importCell_keeps`).
-/

namespace RectLayout.Library

open Design

variable {α : Type} [Scalar α] {config : ImportConfig α} {d e : Design α} {k : CellId} {S : List (Shape α)}
  {P : List (Placement α)}

/-- A shape is what a rectangle of a library stands for. -/
def RectShows (config : ImportConfig α) (r : LibraryRect) (s : Shape α) : Prop :=
  config.layers.lookup ⟨r.layer, r.datatype⟩ = some s.layer ∧
    s.box = ⟨fromUnits config r.x1, fromUnits config r.y1, fromUnits config r.x2, fromUnits config r.y2⟩

/-- A placement is what a reference to a template stands for, but for its size. -/
def RefShows (config : ImportConfig α) (r : LibraryRef × CellId) (p : Placement α) : Prop :=
  p.name = r.1.name ∧ p.template = r.2 ∧ p.box.x1 = fromUnits config r.1.x ∧ p.box.y1 = fromUnits config r.1.y

theorem importRect_ok (h : Filling d e k S P) {r : LibraryRect} {s : Shape α} (hs : RectShows config r s) (n : Nat) :
    ∃ e', importRect config k e r n = .ok e' ∧ Filling d e' k (S ++ [s]) P := by
  obtain ⟨hlayer, hbox⟩ := hs
  obtain ⟨e₁, p, e₂, hadd, hset, hfill⟩ := h.addShape s!"{s.layer}_{n}" s.layer s.box
  refine ⟨e₂, ?_, hfill⟩
  rw [importRect, hlayer]
  simp only [hadd, bind, Except.bind]
  rw [← hbox]
  exact hset

theorem importRect_foldlM_ok {rs : List LibraryRect} {ss : List (Shape α)} (hs : List.Forall₂ (RectShows config) rs ss)
    (h : Filling d e k S P) (n : Nat) :
    ∃ e', (rs.zipIdx n).foldlM (fun d (r, n) => importRect config k d r n) e = .ok e' ∧ Filling d e' k (S ++ ss) P := by
  induction hs generalizing e S n with
  | nil => exact ⟨e, rfl, by rwa [List.append_nil]⟩
  | @cons r s rs ss hrs _ ih =>
    obtain ⟨e₁, hrect, hfill⟩ := importRect_ok h hrs n
    obtain ⟨e₂, hrest, hfill⟩ := ih hfill (n + 1)
    refine ⟨e₂, ?_, by rwa [List.append_assoc] at hfill⟩
    rw [List.zipIdx_cons, List.foldlM_cons]
    show (importRect config k e r n).bind _ = _
    rw [hrect]
    exact hrest

/-- Rectangles that were imported are on known layers. -/
theorem exists_shape_of_foldlM {rs : List LibraryRect}
    (h : rs.zipIdx.foldlM (fun d (r, n) => importRect config k d r n) d = .ok e) :
    ∀ r ∈ rs, ∃ s, RectShows config r s := by
  intro r hr
  obtain ⟨n, hn⟩ := List.mem_iff_getElem?.mp hr
  obtain ⟨t, t', hstep⟩ := exists_step_of_foldlM h (List.mk_mem_zipIdx_iff_getElem?.mpr hn)
  dsimp only [importRect] at hstep
  split at hstep
  · cases hstep
  · rename_i layer hlayer
    exact ⟨⟨layer, _⟩, hlayer, rfl⟩

theorem importRef_ok (h : Filling d e k S P) (r : LibraryRef) {t : CellId} (ht : (d.cell? t).isSome) (htk : t ≠ k) :
    ∃ e' p, importRef config k e r t = .ok e' ∧ RefShows config (r, t) p ∧ Filling d e' k S (P ++ [p]) := by
  have ht' : (e.cell? t).isSome := by rw [(h.others t htk).cell]; exact ht
  obtain ⟨e₁, i, hadd, -, hplace⟩ := h.addPlacement r.name ht' htk
  cases hcontent : e₁.contentBox? t with
  | none =>
    obtain ⟨e₂, hset, hfill⟩ := hplace
      ⟨fromUnits config r.x, fromUnits config r.y, fromUnits config r.x, fromUnits config r.y⟩
    refine ⟨e₂, _, ?_, ⟨rfl, rfl, rfl, rfl⟩, hfill⟩
    simp only [importRef, hadd, bind, Except.bind, hcontent]
    exact hset
  | some content =>
    obtain ⟨e₂, hset, hfill⟩ := hplace (content.movedTo (fromUnits config r.x) (fromUnits config r.y))
    refine ⟨e₂, _, ?_, ⟨rfl, rfl, rfl, rfl⟩, hfill⟩
    simp only [importRef, hadd, bind, Except.bind, hcontent]
    exact hset

theorem importRef_foldlM_ok (l : List (LibraryRef × CellId)) (h : Filling d e k S P)
    (hl : ∀ r ∈ l, (d.cell? r.2).isSome ∧ r.2 ≠ k) : ∃ e' ps,
    l.foldlM (fun d r => importRef config k d r.1 r.2) e = .ok e' ∧
      List.Forall₂ (RefShows config) l ps ∧ Filling d e' k S (P ++ ps) := by
  induction l generalizing e P with
  | nil => exact ⟨e, [], rfl, .nil, by rwa [List.append_nil]⟩
  | cons r l ih =>
    obtain ⟨ht, htk⟩ := hl r List.mem_cons_self
    obtain ⟨e₁, p, href, hp, hfill⟩ := importRef_ok h r.1 ht htk
    obtain ⟨e₂, ps, hrest, hps, hfill⟩ := ih hfill fun r' hr' => hl r' (List.mem_cons_of_mem r hr')
    refine ⟨e₂, p :: ps, ?_, .cons hp hps, by rwa [List.append_assoc] at hfill⟩
    rw [List.foldlM_cons]
    show (importRef config k e r.1 r.2).bind _ = _
    rw [href]
    exact hrest

/-- `e` is `d` with one cell more, `k`, which shows `S` and `P` and whose objects all have boxes. -/
structure Extended (d e : Design α) (k : CellId) (S : List (Shape α)) (P : List (Placement α)) : Prop where
  reachable : e.Reachable
  others : ∀ c, (d.cell? c).isSome → SameContent c d e
  exists_cell : (e.cell? k).isSome
  bound : ∀ n ∈ e.children k, (e.box? n).isSome
  shapes : e.shapes k = S
  placements : e.placements k = P

/-- The content of a cell is imported if its layers are known and its templates are there. -/
theorem importContent_ok (hd : d.Reachable) {source : LibraryCell} {shapes : List (Shape α)}
    (hrects : List.Forall₂ (RectShows config) source.rects shapes) {templates : List CellId}
    (htemplates : ∀ t ∈ templates, (d.cell? t).isSome) : ∃ e k placements,
    importContent config source templates d = .ok (e, k) ∧
      List.Forall₂ (RefShows config) (source.refs.zip templates) placements ∧ Extended d e k shapes placements := by
  have hne : ∀ t, (d.cell? t).isSome → t ≠ ⟨d.cells.size⟩ := by
    rintro t ht rfl
    rw [cell?_size] at ht
    cases ht
  have hzip : ∀ r ∈ source.refs.zip templates, (d.cell? r.2).isSome ∧ r.2 ≠ ⟨d.cells.size⟩ := by
    intro r hr
    have ht := htemplates r.2 (List.of_mem_zip hr).2
    exact ⟨ht, hne r.2 ht⟩
  obtain ⟨e₁, hrects, hfill⟩ := importRect_foldlM_ok hrects (filling_addCell hd source.name) 0
  obtain ⟨e₂, placements, hrefs, hplacements, hfill⟩ := importRef_foldlM_ok (source.refs.zip templates) hfill hzip
  rw [List.nil_append, List.nil_append] at hfill
  have hadd : d.addCell source.name = ((d.addCell source.name).1, ⟨d.cells.size⟩) := rfl
  have hothers : ∀ {e : Design α}, (∀ c, c ≠ ⟨d.cells.size⟩ → SameContent c d e) →
      ∀ c, (d.cell? c).isSome → SameContent c d e := fun h c hc => h c (hne c hc)
  have hexists : ∀ {e : Design α}, e.isActive ⟨d.cells.size⟩ → (e.cell? ⟨d.cells.size⟩).isSome := by
    intro e h
    obtain ⟨cell, hcell, -⟩ := isActive_iff.mp h
    rw [hcell]
    rfl
  unfold importContent
  rw [hadd]
  simp only [bind, Except.bind, hrects]
  rw [hrefs]
  dsimp only
  cases hbox : Box.tight? (e₂.childBoxes ⟨d.cells.size⟩) with
  | none =>
    exact ⟨e₂, _, placements, rfl, hplacements, hfill.reachable, hothers hfill.others, hexists hfill.active,
      hfill.bound, hfill.shapes, hfill.placements⟩
  | some box =>
    obtain ⟨e₃, hset, hbox₃, hfill⟩ := hfill.setBox_content hbox
    simp only [hset, pure, Except.pure]
    split
    · obtain ⟨e₄, hfreeze, hreachable, hkeeps, hcell, hbound, hS, hP⟩ := hfill.freeze_content hbox₃
      rw [hfreeze]
      exact ⟨e₄, _, placements, rfl, hplacements, hreachable, hothers hkeeps, hcell, hbound, hS, hP⟩
    · exact ⟨e₃, _, placements, rfl, hplacements, hfill.reachable, hothers hfill.others, hexists hfill.active,
        hfill.bound, hfill.shapes, hfill.placements⟩

/-! ## Runs of an import -/

/-- What the import of the content of each cell keeps that `start` leads to, the import of such a cell keeps. -/
theorem importCell_keeps {lib : Library α} {start : String} {P : Imported α → Prop}
    (hstep : ∀ {s : Imported α} {name : String} {source : LibraryCell} {templates : List CellId} {d : Design α}
      {k : CellId}, P s → Relation.ReflTransGen lib.RefersTo start name → lib.cell? name = some source →
      importContent config source templates s.design = .ok (d, k) → P ⟨d, s.done ++ [(name, k)]⟩)
    {fuel : Nat} {pending : List String} {s s' : Imported α} {name : String}
    (hname : Relation.ReflTransGen lib.RefersTo start name) (hs : P s)
    (h : importCell lib config fuel pending s name = .ok (s', k)) : P s' := by
  induction fuel generalizing pending s s' name k with
  | zero => cases h
  | succ fuel ih =>
    unfold importCell at h
    split at h
    · cases h
      exact hs
    · split at h
      · cases h
      · split at h
        · cases h
        · rename_i source hsource
          obtain ⟨⟨s₁, templates⟩, hrefs, h⟩ := bind_eq_ok_iff.mp h
          obtain ⟨⟨d, c⟩, hcontent, h⟩ := bind_eq_ok_iff.mp h
          cases h
          have h₁ : P s₁ := by
            refine foldlM_keeps (P := fun p : Imported α × List CellId => P p.1) ?_ hs hrefs
            intro p hp r hr p' hp'
            obtain ⟨⟨s₂, k₂⟩, hcell, hp'⟩ := bind_eq_ok_iff.mp hp'
            cases hp'
            exact ih (hname.tail ⟨source, hsource, r, hr, rfl⟩) hp hcell
          exact hstep h₁ hname hsource hcontent

end RectLayout.Library
