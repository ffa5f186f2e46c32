import RectLayout.Proofs.Library.Export
import RectLayout.Proofs.Library.Import

/-!
# From a design to a library and back

A library of a design is read back if what it writes is on its grid and the layers have numbers of their own
(`Written.readsBack`). An import then finds for every reached cell a copy, moved back by the origin of the cell in the
library; each cell that is done is such a copy, and one more cell keeps that so (`importCell_ok`). Therefore the import
of the top draws what the top draws (`marks_flatten_import`).
-/

namespace RectLayout.Library

open Design

/-! ## What is read back -/

/-- `Q` holds of the coordinates of a cell, relative to a point, that a library has: those of its shapes and the lower
left corners of its placements. -/
structure AllWritten (Q : Rat → Prop) (d : Design Rat) (o : Rat × Rat) (c : CellId) : Prop where
  shapes : ∀ s ∈ d.shapes c, Q (s.box.x1 - o.1) ∧ Q (s.box.y1 - o.2) ∧ Q (s.box.x2 - o.1) ∧ Q (s.box.y2 - o.2)
  placements : ∀ p ∈ d.placements c, Q (p.box.x1 - o.1) ∧ Q (p.box.y1 - o.2)

instance (Q : Rat → Prop) [DecidablePred Q] (d : Design Rat) (o : Rat × Rat) (c : CellId) :
    Decidable (AllWritten Q d o c) :=
  decidable_of_iff ((∀ s ∈ d.shapes c, Q (s.box.x1 - o.1) ∧ Q (s.box.y1 - o.2) ∧ Q (s.box.x2 - o.1) ∧
    Q (s.box.y2 - o.2)) ∧ ∀ p ∈ d.placements c, Q (p.box.x1 - o.1) ∧ Q (p.box.y1 - o.2))
    ⟨fun h => ⟨h.1, h.2⟩, fun h => ⟨h.shapes, h.placements⟩⟩

/-- A cell of a library that is read as what a cell shows, moved back by a vector. -/
structure ReadsBack (config : ImportConfig Rat) (d : Design Rat) (o : Rat × Rat) (c : CellId) (source : LibraryCell) :
    Prop where
  rects : List.Forall₂ (RectShows config) source.rects
    ((d.shapes c).map fun s => ⟨s.layer, s.box.translate (-o.1) (-o.2)⟩)
  refs : List.Forall₂ (fun r p => r.name = p.name ∧ r.cell = d.name (.cell p.template) ∧
    fromUnits config r.x = p.box.x1 - o.1 ∧ fromUnits config r.y = p.box.y1 - o.2) source.refs (d.placements c)

variable {d : Design Rat} {top c : CellId} {lib : Library Rat} {config : ImportConfig Rat}

/-- What is written on the grid of a library is read back. -/
theorem Written.readsBack {layers : LayerTable} {o : Rat × Rat} {source : LibraryCell}
    (h : Written d layers config.scale o c source) (hlayers : layers.Injective)
    (hconfig : config.layers = layers.reverse) (hscale : 0 < config.scale)
    (hfits : AllWritten (Fits config.scale) d o c) : ReadsBack config d o c source := by
  constructor
  · rw [List.forall₂_map_right_iff]
    refine List.Forall₂.flip ?_
    have hrects := (List.forall₂_and_left _ _).mpr ⟨hfits.shapes, h.rects⟩
    refine hrects.imp ?_
    rintro s r ⟨⟨hx₁, hy₁, hx₂, hy₂⟩, hlayer, hrx₁, hry₁, hrx₂, hry₂⟩
    refine ⟨?_, ?_⟩
    · rw [hconfig]
      exact LayerTable.lookup_reverse hlayers hlayer
    · rw [hrx₁, hry₁, hrx₂, hry₂, fromUnits_toUnits hscale hx₁, fromUnits_toUnits hscale hy₁,
        fromUnits_toUnits hscale hx₂, fromUnits_toUnits hscale hy₂]
      simp [Box.translate, sub_eq_add_neg]
  · rw [h.refs, List.forall₂_map_left_iff, List.forall₂_same]
    intro p hp
    obtain ⟨hx, hy⟩ := hfits.placements p hp
    exact ⟨rfl, rfl, fromUnits_toUnits hscale hx, fromUnits_toUnits hscale hy⟩

/-! ## Cells that are done -/

/-- `k` is what was imported for the reached cell `c`. -/
def Done (d : Design Rat) (top : CellId) (s : Imported Rat) (c k : CellId) : Prop :=
  c ∈ d.reachable top ∧ (d.name (.cell c), k) ∈ s.done

/-- All cells that are done are copies, each moved back by its vector. -/
structure Faithful (d : Design Rat) (top : CellId) (shift : CellId → Rat × Rat) (s : Imported Rat) : Prop where
  reachable : s.design.Reachable
  exists_cell : ∀ c k, Done d top s c k → (s.design.cell? k).isSome
  copy : ∀ c k, Done d top s c k → ShiftedCopy d s.design shift (Done d top s) c k

variable {shift : CellId → Rat × Rat}

/-- Nothing is done at the start. -/
theorem faithful_empty : Faithful d top shift ⟨.empty, []⟩ := by
  have hdone : ∀ c k, ¬ Done d top ⟨.empty, []⟩ c k := fun c k h => by cases h.2
  exact ⟨⟨[], rfl⟩, fun c k h => absurd h (hdone c k), fun c k h => absurd h (hdone c k)⟩

/-- What an import of the cell `c` is to give: it goes on from `s` to `s'` and `k` is done for `c`. -/
structure Imports (d : Design Rat) (top : CellId) (shift : CellId → Rat × Rat) (s s' : Imported Rat) (c k : CellId) :
    Prop where
  faithful : Faithful d top shift s'
  done_subset : s.done ⊆ s'.done
  done : (d.name (.cell c), k) ∈ s'.done

/-- The templates of placements are imported one after another. -/
theorem importRefs_ok {fuel : Nat} {pending : List String} {refs : List LibraryRef} {ps : List (Placement Rat)}
    (hrefs : List.Forall₂ (fun r p => r.cell = d.name (.cell p.template)) refs ps)
    (himport : ∀ p ∈ ps, ∀ s, Faithful d top shift s → ∃ s' k,
      importCell lib config fuel pending s (d.name (.cell p.template)) = .ok (s', k) ∧
        Imports d top shift s s' p.template k) (s : Imported Rat) (hs : Faithful d top shift s) (acc : List CellId) :
    ∃ s' ks, refs.foldlM (fun (state, templates) r => do
        let (state, c) ← importCell lib config fuel pending state r.cell
        return (state, templates ++ [c])) (s, acc) = .ok (s', acc ++ ks) ∧
      Faithful d top shift s' ∧ s.done ⊆ s'.done ∧
      List.Forall₂ (fun p k => (d.name (.cell p.template), k) ∈ s'.done) ps ks := by
  induction hrefs generalizing s acc with
  | nil => exact ⟨s, [], by rw [List.append_nil]; rfl, hs, List.Subset.refl _, .nil⟩
  | @cons r p refs ps hrp _ ih =>
    obtain ⟨s₁, k, himp, himports⟩ := himport p List.mem_cons_self s hs
    obtain ⟨s₂, ks, hrest, hs₂, hsub, hks⟩ :=
      ih (fun q hq => himport q (List.mem_cons_of_mem p hq)) s₁ himports.faithful (acc ++ [k])
    refine ⟨s₂, k :: ks, ?_, hs₂, List.Subset.trans himports.done_subset hsub, .cons (hsub himports.done) hks⟩
    rw [List.foldlM_cons, hrp]
    show Except.bind (Except.bind (importCell lib config fuel pending s (d.name (.cell p.template))) _) _ = _
    rw [himp]
    rw [List.append_assoc] at hrest
    exact hrest

/-- References that place what the placements of a cell place make a copy of them. -/
theorem forall₂_placements {o : Rat × Rat} {R : CellId → CellId → Prop} {refs : List LibraryRef}
    {ps qs : List (Placement Rat)} {ks : List CellId}
    (hrefs : List.Forall₂ (fun r p => r.name = p.name ∧ r.cell = d.name (.cell p.template) ∧
      fromUnits config r.x = p.box.x1 - o.1 ∧ fromUnits config r.y = p.box.y1 - o.2) refs ps)
    (hks : List.Forall₂ (fun p k => R p.template k) ps ks) (hqs : List.Forall₂ (RefShows config) (refs.zip ks) qs) :
    List.Forall₂ (fun p q => q.name = p.name ∧ R p.template q.template ∧ CornerMoved o p.box q.box) ps qs := by
  induction hrefs generalizing ks qs with
  | nil =>
    rw [List.zip_nil_left, List.forall₂_nil_left_iff] at hqs
    rw [hqs]
    exact .nil
  | cons hr _ ih =>
    cases hks with
    | cons hk hks =>
      rw [List.zip_cons_cons] at hqs
      cases hqs with
      | cons hq hqs =>
        obtain ⟨hname, -, hx, hy⟩ := hr
        obtain ⟨hqname, hqtemplate, hqx, hqy⟩ := hq
        refine .cons ⟨hqname.trans hname, ?_, hqx.trans hx, hqy.trans hy⟩ (ih hks hqs)
        rw [hqtemplate]
        exact hk

/-- The state with one more copy that is done. -/
theorem Faithful.extend {s : Imported Rat} (hs : Faithful d top shift s)
    (hnames : ∀ a ∈ d.reachable top, ∀ b ∈ d.reachable top, d.name (.cell a) = d.name (.cell b) → a = b)
    (hc : c ∈ d.reachable top) {e : Design Rat} {k : CellId} {S : List (Shape Rat)} {P : List (Placement Rat)}
    (he : Extended s.design e k S P)
    (hS : S = (d.shapes c).map fun p => ⟨p.layer, p.box.translate (-(shift c).1) (-(shift c).2)⟩)
    (hP : List.Forall₂ (fun p q => q.name = p.name ∧ Done d top s p.template q.template ∧
      CornerMoved (shift c) p.box q.box) (d.placements c) P) :
    Imports d top shift s ⟨e, s.done ++ [(d.name (.cell c), k)]⟩ c k := by
  have hmono : ∀ a b, Done d top s a b → Done d top ⟨e, s.done ++ [(d.name (.cell c), k)]⟩ a b :=
    fun a b h => ⟨h.1, List.mem_append_left _ h.2⟩
  have hcases : ∀ a b, Done d top ⟨e, s.done ++ [(d.name (.cell c), k)]⟩ a b →
      Done d top s a b ∨ (a = c ∧ b = k) := by
    rintro a b ⟨ha, hab⟩
    rcases List.mem_append.mp hab with hab | hab
    · exact .inl ⟨ha, hab⟩
    · obtain ⟨hname, hb⟩ := Prod.mk.inj (List.mem_singleton.mp hab)
      exact .inr ⟨hnames a ha c hc hname, hb⟩
  refine ⟨⟨he.reachable, fun a b hab => ?_, fun a b hab => ?_⟩, List.subset_append_left _ _, by simp⟩
  · rcases hcases a b hab with hab | ⟨-, rfl⟩
    · have hsome := hs.exists_cell a b hab
      rw [(he.others b hsome).cell]
      exact hsome
    · exact he.exists_cell
  · rcases hcases a b hab with hab | ⟨rfl, rfl⟩
    · exact (hs.copy a b hab).mono (he.others b (hs.exists_cell a b hab)) hmono
    · refine ⟨he.shapes.trans hS, ?_⟩
      rw [he.placements]
      exact hP.imp fun p q h => ⟨h.1, hmono _ _ h.2.1, h.2.2⟩

/-! ## Importing a cell -/

/-- A reached cell is imported if the library has all reached cells. The names that are pending are those of cells
that the cell does not reach. -/
theorem importCell_ok (hd : d.WellFormed)
    (hnames : ∀ a ∈ d.reachable top, ∀ b ∈ d.reachable top, d.name (.cell a) = d.name (.cell b) → a = b)
    (hcells : ∀ c ∈ d.reachable top, ∃ source, lib.cell? (d.name (.cell c)) = some source ∧
      ReadsBack config d (shift c) c source) {fuel : Nat} (hc : c ∈ d.reachable top)
    (hfuel : (d.reachable c).length ≤ fuel) (pending : List String)
    (hpending : ∀ n ∈ pending, ∃ a ∈ d.reachable top, n = d.name (.cell a) ∧ a ∉ d.reachable c) (s : Imported Rat)
    (hs : Faithful d top shift s) : ∃ s' k,
      importCell lib config fuel pending s (d.name (.cell c)) = .ok (s', k) ∧ Imports d top shift s s' c k := by
  induction fuel generalizing c pending s with
  | zero =>
    have hpos := length_reachable_pos d c
    omega
  | succ fuel ih =>
    unfold importCell
    cases hlookup : s.done.lookup (d.name (.cell c)) with
    | some k =>
      obtain ⟨l₁, l₂, hdone, -⟩ := List.lookup_eq_some_iff.mp hlookup
      exact ⟨s, k, rfl, hs, List.Subset.refl _, by rw [hdone]; simp⟩
    | none =>
      have hfresh : pending.contains (d.name (.cell c)) = false := by
        rw [List.contains_eq_mem, decide_eq_false_iff_not]
        intro hn
        obtain ⟨a, ha, hname, hna⟩ := hpending _ hn
        rw [hnames c hc a ha hname] at hna
        exact hna (self_mem_reachable d a)
      obtain ⟨source, hsource, hreads⟩ := hcells c hc
      have himport : ∀ p ∈ d.placements c, ∀ s, Faithful d top shift s → ∃ s' k,
          importCell lib config fuel (d.name (.cell c) :: pending) s (d.name (.cell p.template)) = .ok (s', k) ∧
            Imports d top shift s s' p.template k := by
        intro p hp s hs
        have ht := template_mem_of_placement hp
        have hlt := length_reachable_lt hd ht
        refine ih (template_mem_reachable hc ht) (by omega) _ ?_ s hs
        intro n hn
        rcases List.mem_cons.mp hn with rfl | hn
        · exact ⟨c, hc, rfl, fun hct => hd.acyclic c _ ht (mem_reachable_iff.mp hct)⟩
        · obtain ⟨a, ha, hname, hna⟩ := hpending n hn
          exact ⟨a, ha, hname, fun hat => hna (reachable_subset ht hat)⟩
      obtain ⟨s₁, ks, hfold, hs₁, hsub, hks⟩ := importRefs_ok (hreads.refs.imp fun _ _ h => h.2.1) himport s hs []
      have htemplates : ∀ p ∈ d.placements c, p.template ∈ d.reachable top :=
        fun p hp => template_mem_reachable hc (template_mem_of_placement hp)
      have hdone : List.Forall₂ (fun p k => Done d top s₁ p.template k) (d.placements c) ks :=
        (List.forall₂_and_left _ _).mpr ⟨htemplates, hks⟩
      have hexists : ∀ k ∈ ks, (s₁.design.cell? k).isSome := by
        intro k hk
        obtain ⟨p, -, hpk⟩ := exists_of_forall₂ hdone hk
        exact hs₁.exists_cell _ k hpk
      obtain ⟨e, k, placements, hcontent, hplacements, hextended⟩ :=
        importContent_ok hs₁.reachable hreads.rects hexists
      have himports := hs₁.extend hnames hc hextended rfl (forall₂_placements hreads.refs hdone hplacements)
      refine ⟨⟨e, s₁.done ++ [(d.name (.cell c), k)]⟩, k, ?_, himports.faithful,
        List.Subset.trans hsub himports.done_subset, himports.done⟩
      simp only [hfresh, hsource]
      show Except.bind (List.foldlM _ _ _) _ = _
      rw [hfold]
      show Except.bind (importContent config source ([] ++ ks) s₁.design) _ = _
      rw [List.nil_append, hcontent]
      rfl

/-! ## The drawing of the import -/

/-- A length within 64 bits of units. -/
def InRange (ratio v : Rat) : Prop := Scalar.minInt64 ≤ v * ratio ∧ v * ratio ≤ Scalar.maxInt64

instance (ratio v : Rat) : Decidable (InRange ratio v) := inferInstanceAs (Decidable (_ ∧ _))

/-- The distance of two points of the grid is on it if it is within 64 bits. -/
theorem Fits.sub {ratio v w : Rat} (hv : Fits ratio v) (hw : Fits ratio w) (h : InRange ratio (v - w)) :
    Fits ratio (v - w) := by
  obtain ⟨n, hn, -⟩ := hv
  obtain ⟨m, hm, -⟩ := hw
  have hnm : (v - w) * ratio = ((n - m : Int) : Rat) := by rw [sub_mul, hn, hm, Int.cast_sub]
  obtain ⟨hmin, hmax⟩ := h
  rw [hnm] at hmin hmax
  exact ⟨n - m, hnm, by exact_mod_cast hmin, by exact_mod_cast hmax⟩

/-- Relative to the corner of its content a cell on the grid is on the grid, if the distances are within 64 bits. -/
theorem allWritten_fits {ratio : Rat} (hd : d.Reachable) {content : Box Rat} (hcontent : d.contentBox? c = some content)
    (hfits : ∀ box ∈ d.childBoxes c, Fits ratio box.x1 ∧ Fits ratio box.y1 ∧ Fits ratio box.x2 ∧ Fits ratio box.y2)
    (hrange : AllWritten (InRange ratio) d (content.x1, content.y1) c) :
    AllWritten (Fits ratio) d (content.x1, content.y1) c := by
  by_cases hnothing : d.ShowsNothing c
  · exact ⟨by rw [hnothing.1]; simp, by rw [hnothing.2]; simp⟩
  · rw [hd.contentBox?_eq_tight hnothing] at hcontent
    obtain ⟨hx, hy⟩ := Box.forall_corner_of_tight hcontent fun a ha => ⟨(hfits a ha).1, (hfits a ha).2.1⟩
    rw [childBoxes_eq] at hfits
    constructor
    · intro s hs
      obtain ⟨hx₁, hy₁, hx₂, hy₂⟩ := hfits s.box (List.mem_append_left _ (List.mem_map_of_mem hs))
      obtain ⟨hrx₁, hry₁, hrx₂, hry₂⟩ := hrange.shapes s hs
      exact ⟨hx₁.sub hx hrx₁, hy₁.sub hy hry₁, hx₂.sub hx hrx₂, hy₂.sub hy hry₂⟩
    · intro p hp
      obtain ⟨hx₁, hy₁, -⟩ := hfits p.box (List.mem_append_right _ (List.mem_map_of_mem hp))
      obtain ⟨hrx, hry⟩ := hrange.placements p hp
      exact ⟨hx₁.sub hx hrx, hy₁.sub hy hry⟩

/-- Relative to its origin in the library a cell on the grid is on the grid. -/
theorem allWritten_origin {ratio : Rat} (hd : d.Reachable)
    (hfits : ∀ box ∈ d.childBoxes c, Fits ratio box.x1 ∧ Fits ratio box.y1 ∧ Fits ratio box.x2 ∧ Fits ratio box.y2)
    (hrange : c ≠ top → ∀ content, d.contentBox? c = some content →
      AllWritten (InRange ratio) d (content.x1, content.y1) c) :
    AllWritten (Fits ratio) d (origin d c (c = top)) c := by
  have hzero : AllWritten (Fits ratio) d (0, 0) c := by
    rw [childBoxes_eq] at hfits
    constructor
    · intro s hs
      simp only [sub_zero]
      exact hfits s.box (List.mem_append_left _ (List.mem_map_of_mem hs))
    · intro p hp
      simp only [sub_zero]
      have hp := hfits p.box (List.mem_append_right _ (List.mem_map_of_mem hp))
      exact ⟨hp.1, hp.2.1⟩
  unfold origin
  cases hcontent : d.contentBox? c with
  | none => exact hzero
  | some content =>
    by_cases hc : c = top
    · simpa [hc] using hzero
    · simpa [hc] using allWritten_fits hd hcontent hfits (hrange hc content hcontent)

/-- A library that has all reached cells is imported. -/
theorem toDesign_ok (hd : d.WellFormed)
    (hnames : ∀ a ∈ d.reachable top, ∀ b ∈ d.reachable top, d.name (.cell a) = d.name (.cell b) → a = b)
    {layers : ReverseLayers} {ratio : Rat} {freeze : Bool} (hratio : 0 < lib.unitRatio)
    (hcells : ∀ c ∈ d.reachable top, ∃ source, lib.cell? (d.name (.cell c)) = some source ∧
      ReadsBack ⟨layers, lib.unitRatio, freeze⟩ d (shift c) c source)
    (hfuel : (d.reachable top).length ≤ lib.cells.length) : ∃ s t,
    toDesign lib (d.name (.cell top)) layers ratio freeze = .ok (s.design, t) ∧ Faithful d top shift s ∧
      Done d top s top t := by
  have htop := self_mem_reachable d top
  have hfuel : (d.reachable top).length ≤ lib.cells.length + 2 := by omega
  obtain ⟨s, t, himport, himports⟩ := importCell_ok hd hnames hcells htop hfuel [] (fun n hn => by cases hn)
    ⟨.empty, []⟩ faithful_empty
  refine ⟨s, t, ?_, himports.faithful, htop, himports.done⟩
  unfold toDesign
  rw [if_pos hratio]
  show Except.bind (importCell lib ⟨layers, lib.unitRatio, freeze⟩ _ _ _ _) _ = _
  rw [himport]
  rfl

/-- The copy of a top that is not moved draws what the top draws. -/
theorem marks_flatten_copy (hd : d.Reachable) {s : Imported Rat} (hs : Faithful d top shift s) {t : CellId}
    (ht : Done d top s top t) (htop : shift top = (0, 0)) :
    (s.design.flatten t).map FlatRect.mark = (d.flatten top).map FlatRect.mark := by
  have hle := length_reachable_le hd.wellFormed top
  have hle' := length_reachable_le hs.reachable.wellFormed t
  -- fuel that is enough for both drawings
  have hfuel := flattenFrom_fuel hd.wellFormed hle (Nat.le_trans hle (Nat.le_add_right _ s.design.cells.size)) 0 0 []
  have hfuel' : s.design.flatten t = s.design.flattenFrom (d.cells.size + 1 + s.design.cells.size) t 0 0 [] :=
    flattenFrom_fuel hs.reachable.wellFormed hle' (by omega) 0 0 []
  have hdraws := marks_flattenFrom_copy hd hs.reachable hs.copy (d.cells.size + 1 + s.design.cells.size) ht 0 0 []
  rw [htop, add_zero] at hdraws
  rw [hfuel', hdraws, ← hfuel]
  rfl

/-- The top of a library keeps its coordinates. -/
theorem origin_top (d : Design Rat) (top : CellId) : origin d top (top = top) = (0, 0) := by
  unfold origin
  cases d.contentBox? top with
  | none => rfl
  | some content => simp

/-- Exporting a cell and importing it again keeps its drawing: if the reached cells have different names, the layers
have numbers of their own, and all coordinates are whole numbers of units within 64 bits, those of a template also
relative to the corner of its content, then the import succeeds and draws the same rectangles in the same order, below
the same instances and on the same layers. -/
theorem marks_flatten_import {d : Design Rat} (hd : d.Reachable) {top : CellId}
    (hnames : ∀ a ∈ d.reachable top, ∀ b ∈ d.reachable top, d.name (.cell a) = d.name (.cell b) → a = b)
    {layers : LayerTable} (hlayers : layers.Injective) {ratio : Rat} (hratio : 0 < ratio)
    (hfits : ∀ c ∈ d.reachable top, ∀ box ∈ d.childBoxes c,
      Fits ratio box.x1 ∧ Fits ratio box.y1 ∧ Fits ratio box.x2 ∧ Fits ratio box.y2)
    (hrange : ∀ c ∈ d.reachable top, c ≠ top → ∀ content, d.contentBox? c = some content →
      AllWritten (InRange ratio) d (content.x1, content.y1) c)
    (freeze : Bool) {lib : Library Rat} (hlib : ofDesign d top layers ratio = .ok lib) : ∃ e t,
    toDesign lib (d.name (.cell top)) layers.reverse ratio freeze = .ok (e, t) ∧
      (e.flatten t).map FlatRect.mark = (d.flatten top).map FlatRect.mark := by
  have hunit := (ofDesign_ok hlib).1
  have hcells : ∀ c ∈ d.reachable top, ∃ source, lib.cell? (d.name (.cell c)) = some source ∧
      ReadsBack ⟨layers.reverse, lib.unitRatio, freeze⟩ d (origin d c (c = top)) c source := by
    intro c hc
    obtain ⟨source, hsource, hwritten⟩ := cell?_of_ofDesign hd.wellFormed hlib hnames hc
    have hgrid := allWritten_origin hd (hfits c hc) (hrange c hc)
    rw [hunit]
    exact ⟨source, hsource, hwritten.readsBack hlayers rfl hratio hgrid⟩
  obtain ⟨s, t, himport, hs, ht⟩ := toDesign_ok hd.wellFormed hnames (by rw [hunit]; exact hratio) hcells
    (length_reachable_le_cells hd.wellFormed hlib)
  exact ⟨s.design, t, himport, marks_flatten_copy hd hs ht (origin_top d top)⟩

/-- A row of two instances of a frozen pad whose content does not start at the origin, and a polygon without a box. -/
def padRow : List (Operation Rat) :=
  [.addCell "pad", .addPolygon ⟨0⟩ "plate" "met1", .setBox (.polygon ⟨0⟩) ⟨-1, 3, 3 / 2, 4⟩, .freeze ⟨0⟩,
    .addCell "row", .addInstance ⟨1⟩ "left" ⟨0⟩, .setBox (.inst ⟨0⟩) ⟨7, 7, 9, 9⟩, .addInstance ⟨1⟩ "right" ⟨0⟩,
    .setBox (.inst ⟨1⟩) ⟨-4, 0, 5, 5⟩, .addPolygon ⟨1⟩ "late" "via1"]

theorem marks_flatten_import_padRow : ∃ lib e t,
    ofDesign (empty.run padRow) ⟨1⟩ ⟨[("met1", ⟨68, 20⟩)]⟩ 1000 = .ok lib ∧
      toDesign lib "row" (LayerTable.reverse ⟨[("met1", ⟨68, 20⟩)]⟩) 1000 true = .ok (e, t) ∧
      (e.flatten t).map FlatRect.mark =
        [⟨["left"], "met1", ⟨7, 7, 19 / 2, 8⟩⟩, ⟨["right"], "met1", ⟨-4, 0, -3 / 2, 1⟩⟩] := by
  have hreachable : (empty.run padRow).reachable ⟨1⟩ = [⟨1⟩, ⟨0⟩] := by decide +kernel
  have hcontent : (empty.run padRow).contentBox? ⟨0⟩ = some ⟨-1, 3, 3 / 2, 4⟩ := by decide +kernel
  have hlib : ofDesign (empty.run padRow) ⟨1⟩ ⟨[("met1", ⟨68, 20⟩)]⟩ 1000 = .ok ⟨1000,
      [⟨"pad", [⟨68, 20, 0, 0, 2500, 1000⟩], []⟩,
        ⟨"row", [], [⟨"left", "pad", 7000, 7000⟩, ⟨"right", "pad", -4000, 0⟩]⟩]⟩ := by decide +kernel
  have hrange : ∀ c ∈ (empty.run padRow).reachable ⟨1⟩, c ≠ ⟨1⟩ → ∀ content,
      (empty.run padRow).contentBox? c = some content →
        AllWritten (InRange 1000) (empty.run padRow) (content.x1, content.y1) c := by
    intro c hc hne content hcell
    rw [hreachable] at hc
    obtain rfl : c = ⟨0⟩ := by simpa [hne] using hc
    obtain rfl : ⟨-1, 3, 3 / 2, 4⟩ = content := Option.some.inj (hcontent.symm.trans hcell)
    decide +kernel
  obtain ⟨e, t, himport, hmarks⟩ := marks_flatten_import ⟨padRow, rfl⟩ (by rw [hreachable]; decide +kernel)
    (by decide +kernel) (by decide +kernel) (by rw [hreachable]; decide +kernel) hrange true hlib
  exact ⟨_, e, t, hlib, himport, hmarks.trans (by decide +kernel)⟩

/-- A cell that is wider than 64 bits of units, between coordinates that are not, drawn by another. -/
def wideTile : List (Operation Rat) :=
  [.addCell "wide", .addPolygon ⟨0⟩ "p" "met1",
    .setBox (.polygon ⟨0⟩) ⟨-9000000000000000000, 0, 9000000000000000000, 1⟩, .addCell "top",
    .addInstance ⟨1⟩ "i" ⟨0⟩, .setBox (.inst ⟨0⟩) ⟨0, 0, 1, 1⟩]

/-- Coordinates within 64 bits are not enough: the width of a template is cut off. -/
theorem not_marks_flatten_import : ¬ ∀ (d : Design Rat) (top : CellId) (layers : LayerTable) (ratio : Rat)
    (freeze : Bool) (lib : Library Rat), d.Reachable →
    (∀ a ∈ d.reachable top, ∀ b ∈ d.reachable top, d.name (.cell a) = d.name (.cell b) → a = b) → layers.Injective →
    0 < ratio → (∀ c ∈ d.reachable top, ∀ box ∈ d.childBoxes c,
      Fits ratio box.x1 ∧ Fits ratio box.y1 ∧ Fits ratio box.x2 ∧ Fits ratio box.y2) →
    ofDesign d top layers ratio = .ok lib → ∃ e t,
    toDesign lib (d.name (.cell top)) layers.reverse ratio freeze = .ok (e, t) ∧
      (e.flatten t).map FlatRect.mark = (d.flatten top).map FlatRect.mark := by
  intro h
  obtain ⟨e, t, himport, hmarks⟩ := h (empty.run wideTile) ⟨1⟩ ⟨[("met1", ⟨68, 20⟩)]⟩ 1 false
    ⟨1, [⟨"wide", [⟨68, 20, 0, 0, 9223372036854775807, 1⟩], []⟩, ⟨"top", [], [⟨"i", "wide", 0, 0⟩]⟩]⟩ ⟨wideTile, rfl⟩
    (by decide +kernel) (by decide +kernel) (by decide +kernel) (by decide +kernel) (by decide +kernel)
  have hflat : (empty.run wideTile).flatten ⟨1⟩ = [⟨["i", "p"], "met1", ⟨0, 0, 18000000000000000000, 1⟩⟩] := by
    decide +kernel
  have hcut : (toDesign (⟨1, [⟨"wide", [⟨68, 20, 0, 0, 9223372036854775807, 1⟩], []⟩,
      ⟨"top", [], [⟨"i", "wide", 0, 0⟩]⟩]⟩ : Library Rat) "top" (LayerTable.reverse ⟨[("met1", ⟨68, 20⟩)]⟩) 1
      false).toOption.map (fun r => (r.1.flatten r.2).map FlatRect.mark) =
      some [⟨["i"], "met1", ⟨0, 0, 9223372036854775807, 1⟩⟩] := by
    decide +kernel
  have hname : (empty.run wideTile).name (.cell ⟨1⟩) = "top" := by decide +kernel
  rw [hname] at himport
  rw [himport, hflat] at *
  have hsame : (e.flatten t).map FlatRect.mark = [⟨["i"], "met1", ⟨0, 0, 9223372036854775807, 1⟩⟩] :=
    Option.some.inj hcut
  rw [hsame] at hmarks
  revert hmarks
  decide +kernel

end RectLayout.Library
