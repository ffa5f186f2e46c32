import RectLayout.Proofs.Library.Order
import RectLayout.Proofs.Library.Outcome
import RectLayout.Proofs.Library.RoundTrip

/-!
# Exported libraries are canonical

What an export writes, an import reads and the next export writes again, also where the coordinates of the design are not
whole numbers of units (`ofDesign_toDesign`). For rounding is needed only once: what was written is in the range of the
units, on layers that the table knows (`Written.wellWritten`), and a cell written relative to the corner of its content
has its own corner at zero (`Written.corner_eq_zero`), so reading it and writing it again gives the same cell
(`Reads.written`).

An exported library can be imported, for its references lead where the templates lead (`importable_of_ofDesign`). What
is imported has one cell for each cell that is reached, and these lead to each other as the cells they were made from;
so the walk that lists them finds them in the same order (`forall₂_dependencies`).
-/

namespace RectLayout

open Design Walk

/-! ## Templates of cells whose instances are placed -/

namespace Design

variable {α : Type} {d : Design α} {c : CellId}

/-- If all instances of a cell have boxes, its templates are those of its placements. -/
theorem templates_eq_of_bound (h : ∀ i, .inst i ∈ d.children c → (d.box? (.inst i)).isSome) :
    d.templates c = (d.placements c).map Placement.template := by
  cases hcell : d.cell? c with
  | none => simp [templates, placements, hcell]
  | some cell =>
    simp only [templates, placements, hcell, Option.map_some, Option.getD_some, List.map_filterMap]
    refine List.filterMap_congr fun i hi => ?_
    obtain ⟨box, hbox⟩ := Option.isSome_iff_exists.mp (h i (inst_mem_children_iff.mpr ⟨cell, hcell, hi⟩))
    obtain ⟨inst, hinst, hbox⟩ := Option.bind_eq_some_iff.mp hbox
    simp [hinst, hbox]

end Design

namespace Library

variable {d : Design Rat} {layers : LayerTable} {top c k : CellId} {source : LibraryCell} {ratio : Rat}

/-! ## What is written -/

/-- A cell of a library on layers of the table, with coordinates in the range of the units. -/
structure WellWritten (layers : LayerTable) (source : LibraryCell) : Prop where
  rects : ∀ r ∈ source.rects, (∃ layer, layers.get? layer = some ⟨r.layer, r.datatype⟩) ∧
    InUnits r.x1 ∧ InUnits r.y1 ∧ InUnits r.x2 ∧ InUnits r.y2
  refs : ∀ r ∈ source.refs, InUnits r.x ∧ InUnits r.y

theorem Written.wellWritten {o : Rat × Rat} (h : Written d layers ratio o c source) : WellWritten layers source := by
  refine ⟨fun r hr => ?_, fun r hr => ?_⟩
  · obtain ⟨s, -, hlayer, hx₁, hy₁, hx₂, hy₂⟩ := exists_of_forall₂ h.rects hr
    rw [hx₁, hy₁, hx₂, hy₂]
    exact ⟨⟨s.layer, hlayer⟩, toUnits_inRange _ _, toUnits_inRange _ _, toUnits_inRange _ _, toUnits_inRange _ _⟩
  · rw [h.refs] at hr
    obtain ⟨p, -, rfl⟩ := List.mem_map.mp hr
    exact ⟨toUnits_inRange _ _, toUnits_inRange _ _⟩

/-- A coordinate of the boxes in a cell, as the rectangles and references have it that are written relative to `v`. -/
theorem Written.map_childBoxes {o : Rat × Rat} (h : Written d layers ratio o c source) {f : Box Rat → Rat} {v : Rat}
    {g : LibraryRect → Int} {g' : LibraryRef → Int}
    (hg : ∀ s r, WrittenRect layers ratio o s r → toUnits ratio (f s.box - v) = g r)
    (hg' : ∀ p : Placement Rat, toUnits ratio (f p.box - v) = g' (refOf d ratio o p)) :
    source.rects.map g ++ source.refs.map g' = (d.childBoxes c).map fun b => toUnits ratio (f b - v) := by
  rw [childBoxes_eq, List.map_append, List.map_map, List.map_map, h.refs, List.map_map]
  congr 1
  · exact (map_eq_of_forall₂ hg h.rects).symm
  · exact List.map_congr_left fun p _ => (hg' p).symm

/-- The least of some lengths is written relative to itself as zero, and the others not below it. -/
theorem min_toUnits_sub {l : List (Box Rat)} {f : Box Rat → Rat} {v : Rat} (hratio : 0 ≤ ratio)
    (h : IsLeast {w | w ∈ l.map f} v) : (l.map fun b => toUnits ratio (f b - v)).min?.getD 0 = 0 := by
  obtain ⟨⟨b, hb, hv⟩, hleast⟩ := h.imp_left List.mem_map.mp
  have hmin : (l.map fun b => toUnits ratio (f b - v)).min? = some 0 := by
    refine List.min?_eq_some_iff.mpr ⟨List.mem_map.mpr ⟨b, hb, by rw [hv, sub_self, toUnits_zero]⟩, ?_⟩
    intro n hn
    obtain ⟨b', hb', rfl⟩ := List.mem_map.mp hn
    rw [← toUnits_zero ratio]
    exact toUnits_mono hratio (sub_nonneg.mpr (hleast (List.mem_map_of_mem hb')))
  rw [hmin, Option.getD_some]

/-- A cell that is written relative to the corner of its content has its corner at zero. -/
theorem Written.corner_eq_zero (h : Written d layers ratio (origin d c false) c source) (hd : d.Reachable)
    (hratio : 0 ≤ ratio) : source.corner = (0, 0) := by
  by_cases hnothing : d.ShowsNothing c
  · have hrects : source.rects = [] := List.length_eq_zero_iff.mp (by rw [← h.rects.length_eq, hnothing.1]; rfl)
    have hrefs : source.refs = [] := by rw [h.refs, hnothing.2, List.map_nil]
    simp [LibraryCell.corner, hrects, hrefs]
  · obtain ⟨content, htight⟩ := Box.exists_tight fun hnil => hnothing (childBoxes_eq_nil_iff.mp hnil)
    have horigin : origin d c false = (content.x1, content.y1) := by
      simp [origin, hd.contentBox?_eq_tight hnothing, htight]
    obtain ⟨hx, hy⟩ := Box.isLeast_corner_of_tight htight
    rw [horigin] at h
    rw [LibraryCell.corner, h.map_childBoxes (fun s r hr => hr.2.1.symm) (fun p => rfl), min_toUnits_sub hratio hx,
      h.map_childBoxes (fun s r hr => hr.2.2.1.symm) (fun p => rfl), min_toUnits_sub hratio hy]

/-! ## Reading and writing again -/

variable {lib : Library Rat} {config : ImportConfig Rat} {done : List (String × CellId)}

/-- What shows nothing is written the same relative to any point. -/
theorem Written.of_showsNothing {o o' : Rat × Rat} (h : Written d layers ratio o c source) (hnothing : d.ShowsNothing c) :
    Written d layers ratio o' c source := by
  obtain ⟨hname, hrects, hrefs⟩ := h
  rw [hnothing.1, List.forall₂_nil_left_iff] at hrects
  rw [hnothing.2, List.map_nil] at hrefs
  exact ⟨hname, by rw [hnothing.1, hrects]; exact .nil, by rw [hnothing.2, hrefs, List.map_nil]⟩

/-- A cell that was read from a library is written as it is there, relative to the origin. -/
theorem Reads.written (h : Reads config d done source k) (hsource : WellWritten layers source)
    (hlayers : layers.Injective) (hconfig : config.layers = layers.reverse) (hscale : 0 < config.scale)
    (hname : source.name = d.name (.cell k)) (hdone : ∀ name t, (name, t) ∈ done → d.name (.cell t) = name) :
    Written d layers config.scale (0, 0) k source := by
  refine ⟨hname, List.Forall₂.flip ?_, ?_⟩
  · have hrects := (List.forall₂_and_left _ _).mpr ⟨hsource.rects, h.rects⟩
    refine hrects.imp ?_
    rintro r s ⟨⟨⟨layer, hlayer⟩, hx₁, hy₁, hx₂, hy₂⟩, hshape, hbox⟩
    rw [hconfig, LayerTable.lookup_reverse hlayers hlayer] at hshape
    refine ⟨by rw [← Option.some.inj hshape, hlayer], ?_⟩
    simp only [hbox, sub_zero, toUnits_fromUnits hscale hx₁, toUnits_fromUnits hscale hy₁,
      toUnits_fromUnits hscale hx₂, toUnits_fromUnits hscale hy₂, and_self]
  · have hrefs := (List.forall₂_and_left _ _).mpr ⟨hsource.refs, h.refs⟩
    rw [← List.map_id source.refs]
    refine map_eq_of_forall₂ ?_ hrefs
    rintro r p ⟨⟨hx, hy⟩, hp⟩
    simp only [refOf, hp.name, hdone _ _ hp.done, hp.x, hp.y, sub_zero, toUnits_fromUnits hscale hx,
      toUnits_fromUnits hscale hy, id]

/-- A cell that was read from a library with its corner at zero is written as it is there. -/
theorem Reads.written_origin (h : Reads config d done source k) (hd : d.Reachable) (hscale : 0 < config.scale)
    (hwritten : Written d layers config.scale (0, 0) k source) (hcorner : k ≠ top → source.corner = (0, 0)) :
    Written d layers config.scale (origin d k (k = top)) k source := by
  by_cases hk : k = top
  · rw [hk, origin_top, ← hk]
    exact hwritten
  · by_cases hnothing : d.ShowsNothing k
    · exact hwritten.of_showsNothing hnothing
    · obtain ⟨content, hcontent, hx, hy⟩ := h.content_corner hscale hd hnothing
      have hzero : fromUnits config 0 = 0 := by rw [fromUnits_eq, Int.cast_zero, zero_div]
      have horigin : origin d k (k = top) = (0, 0) := by
        simp [origin, hcontent, hk, hx, hy, hcorner hk, hzero]
      rw [horigin]
      exact hwritten

/-! ## References and templates -/

variable {b : String}

/-- The references of a written cell are to the names of its templates. -/
theorem exists_template_of_refersTo (hd : d.WellFormed) (hlib : ofDesign d top layers ratio = .ok lib)
    (hnames : ∀ a ∈ d.reachable top, ∀ b ∈ d.reachable top, d.name (.cell a) = d.name (.cell b) → a = b)
    (hc : c ∈ d.reachable top) (h : lib.RefersTo (d.name (.cell c)) b) :
    ∃ t, Edge d.templates c t ∧ b = d.name (.cell t) := by
  obtain ⟨source, hsource, hwritten⟩ := cell?_of_ofDesign hd hlib hnames hc
  obtain ⟨source', hsource', r, hr, rfl⟩ := h
  obtain rfl := Option.some.inj (hsource.symm.trans hsource')
  rw [hwritten.refs] at hr
  obtain ⟨p, hp, rfl⟩ := List.mem_map.mp hr
  exact ⟨p.template, template_mem_of_placement hp, rfl⟩

/-- What a written cell leads to are the names of the cells that its cell leads to. -/
theorem exists_reached_of_transGen (hd : d.WellFormed) (hlib : ofDesign d top layers ratio = .ok lib)
    (hnames : ∀ a ∈ d.reachable top, ∀ b ∈ d.reachable top, d.name (.cell a) = d.name (.cell b) → a = b)
    (hc : c ∈ d.reachable top) (h : Relation.TransGen lib.RefersTo (d.name (.cell c)) b) :
    ∃ t ∈ d.reachable top, Relation.TransGen (Edge d.templates) c t ∧ b = d.name (.cell t) := by
  induction h with
  | single h =>
    obtain ⟨t, ht, hb⟩ := exists_template_of_refersTo hd hlib hnames hc h
    exact ⟨t, template_mem_reachable hc ht, .single ht, hb⟩
  | tail _ h ih =>
    obtain ⟨t, ht, hct, rfl⟩ := ih
    obtain ⟨u, hu, hb⟩ := exists_template_of_refersTo hd hlib hnames ht h
    exact ⟨u, template_mem_reachable ht hu, hct.tail hu, hb⟩

/-- Nothing is wrong with an exported library. -/
theorem importable_of_ofDesign (hd : d.WellFormed) (hlib : ofDesign d top layers ratio = .ok lib)
    (hnames : ∀ a ∈ d.reachable top, ∀ b ∈ d.reachable top, d.name (.cell a) = d.name (.cell b) → a = b)
    (hlayers : layers.Injective) : lib.Importable layers.reverse (d.name (.cell top)) := by
  have hreached : ∀ name, Relation.ReflTransGen lib.RefersTo (d.name (.cell top)) name →
      ∃ c ∈ d.reachable top, name = d.name (.cell c) := by
    intro name h
    rcases Relation.reflTransGen_iff_eq_or_transGen.mp h with rfl | h
    · exact ⟨top, self_mem_reachable d top, rfl⟩
    · obtain ⟨t, ht, -, hname⟩ := exists_reached_of_transGen hd hlib hnames (self_mem_reachable d top) h
      exact ⟨t, ht, hname⟩
  refine ⟨fun name h => ?_, fun name h hcycle => ?_, fun name source h hsource r hr => ?_⟩
  · obtain ⟨c, hc, rfl⟩ := hreached name h
    obtain ⟨source, hsource, -⟩ := cell?_of_ofDesign hd hlib hnames hc
    rw [hsource]
    rfl
  · -- a circle of names is one of cells, as different cells have different names
    obtain ⟨c, hc, rfl⟩ := hreached name h
    obtain ⟨t, ht, hct, hname⟩ := exists_reached_of_transGen hd hlib hnames hc hcycle
    obtain rfl := hnames c hc t ht hname
    obtain ⟨u, hcu, huc⟩ := Relation.TransGen.head'_iff.mp hct
    exact hd.acyclic c u hcu huc
  · obtain ⟨c, hc, rfl⟩ := hreached name h
    obtain ⟨source', hsource', hwritten⟩ := cell?_of_ofDesign hd hlib hnames hc
    obtain rfl := Option.some.inj (hsource.symm.trans hsource')
    obtain ⟨layer, hlayer⟩ := (hwritten.wellWritten.rects r hr).1
    rw [LayerTable.lookup_reverse hlayers hlayer]
    rfl

/-! ## The import of an exported library -/

/-- An import with which nothing is wrong ends in a state that is transcribed and lists its cells. -/
theorem exists_import {α : Type} [Scalar α] {lib : Library α} {top : String} {layers : ReverseLayers}
    (h : lib.Importable layers top) (ratio : α) (freeze : Bool) : ∃ s t,
    lib.toDesign top layers ratio freeze = .ok (s.design, t) ∧ Sound lib (lib.importConfig layers ratio freeze) s ∧
      Listed s ∧ (top, t) ∈ s.done := by
  have hstart : Sound lib (lib.importConfig layers ratio freeze) ⟨.empty, []⟩ := ⟨⟨[], rfl⟩, .nil⟩
  cases hcell : importCell lib (lib.importConfig layers ratio freeze) (lib.cells.length + 2) [] ⟨.empty, []⟩ top with
  | error e =>
    have hdefect := defect_of_importCell hstart ⟨List.nodup_nil, List.forall_mem_nil _⟩
      (by rw [List.length_nil]; omega) .refl (List.forall_mem_nil _) hcell
    exact absurd h hdefect.not_importable
  | ok r =>
    obtain ⟨s, t⟩ := r
    obtain ⟨hadvances, hdone⟩ := advances_importCell hstart hcell
    refine ⟨s, t, ?_, hadvances.sound, listed_of_importCell hcell, hdone⟩
    show Except.bind (importCell lib (lib.importConfig layers ratio freeze) _ _ _ _) _ = _
    rw [hcell]
    rfl

section

variable {s : Imported Rat} {t : CellId} (hd : d.Reachable) (hlib : ofDesign d top layers ratio = .ok lib)
  (hnames : ∀ a ∈ d.reachable top, ∀ b ∈ d.reachable top, d.name (.cell a) = d.name (.cell b) → a = b)
  (hs : Sound lib config s) (hlisted : Listed s)

include hnames hs hlisted in
/-- Different cells are imported as different cells. -/
theorem biUnique_done : Relator.BiUnique (Done d top s) := by
  constructor
  · intro a b k ha hb
    have hname := (hlisted.mem_iff.mp ha.2).symm.trans (hlisted.mem_iff.mp hb.2)
    exact hnames a ha.1 b hb.1 (Option.some.inj hname)
  · intro a k k' hk hk'
    have hsame := List.inj_on_of_nodup_map hs.transcribed.nodup_names hk.2 hk'.2 rfl
    exact (Prod.mk.inj hsame).2

include hd hlib hnames hs in
/-- The cell that was imported for a reached cell read what was written for that. -/
theorem exists_reads_of_done (hck : Done d top s c k) : ∃ source before, before ⊆ s.done ∧
    Written d layers ratio (origin d c (c = top)) c source ∧ Reads config s.design before source k := by
  obtain ⟨source, hsource, hwritten⟩ := cell?_of_ofDesign hd.wellFormed hlib hnames hck.1
  obtain ⟨source', before, hbefore, hsource', hreads⟩ := hs.transcribed.exists_reads hck.2
  obtain rfl := Option.some.inj (hsource.symm.trans hsource')
  exact ⟨source, before, hbefore, hwritten, hreads⟩

include hd hlib hnames hs hlisted in
/-- The cell that was imported for a reached cell is written as that was. -/
theorem cellOf_done (hlayers : layers.Injective) (hconfig : config.layers = layers.reverse)
    (hscale : config.scale = ratio) (hratio : 0 < ratio) (ht : Done d top s top t) (hck : Done d top s c k) :
    cellOf s.design layers ratio t k = cellOf d layers ratio top c := by
  obtain ⟨source, before, hbefore, hwritten, hreads⟩ := exists_reads_of_done hd hlib hnames hs hck
  have hname : ∀ name k, (name, k) ∈ s.done → s.design.name (.cell k) = name := by
    intro name k hk
    rw [Design.name, hlisted.mem_iff.mp hk, Option.getD_some]
  have hcorner : k ≠ t → source.corner = (0, 0) := by
    intro hk
    have hc : c ≠ top := by
      rintro rfl
      exact hk ((biUnique_done hnames hs hlisted).2 hck ht)
    rw [decide_eq_false hc] at hwritten
    exact hwritten.corner_eq_zero hd hratio.le
  have htop := isSome_cell_of_ofDesign hlib
  have hc := isSome_cell_of_reaches hd.wellFormed htop (mem_reachable_iff.mp hck.1)
  subst hscale
  have hread := hreads.written hwritten.wellWritten hlayers hconfig hratio
    (hwritten.name.trans (hname _ _ hck.2).symm) fun name k hk => hname name k (hbefore hk)
  have hagain := hreads.written_origin hs.reachable hratio hread hcorner
  rw [cellOf_ok_iff.mpr ⟨hc, hwritten⟩, cellOf_ok_iff.mpr ⟨hreads.exists_cell, hagain⟩]

include hd hlib hnames hs hlisted in
/-- Cells that were imported for the dependencies of the top are the dependencies of what was imported for the top. -/
theorem forall₂_dependencies
    (hbound : ∀ c ∈ d.reachable top, ∀ i, .inst i ∈ d.children c → (d.box? (.inst i)).isSome)
    (ht : Done d top s top t) : List.Forall₂ (Done d top s) (d.dependencies top) (s.design.dependencies t) := by
  have hnext : ∀ c k, Done d top s c k → List.Forall₂ (Done d top s) (d.templates c) (s.design.templates k) := by
    intro c k hck
    obtain ⟨source, before, hbefore, hwritten, hreads⟩ := exists_reads_of_done hd hlib hnames hs hck
    have hrefs := hreads.refs
    rw [hwritten.refs, List.forall₂_map_left_iff] at hrefs
    rw [templates_eq_of_bound (hbound c hck.1), templates_eq_of_bound fun i hi => hreads.bound _ hi,
      List.forall₂_map_left_iff, List.forall₂_map_right_iff]
    have htemplate : ∀ p ∈ d.placements c, p.template ∈ d.reachable top :=
      fun p hp => template_mem_reachable hck.1 (template_mem_of_placement hp)
    exact ((List.forall₂_and_left _ _).mpr ⟨htemplate, hrefs⟩).imp fun p q hpq => ⟨hpq.1, hbefore hpq.2.done⟩
  -- fuel that is enough for both walks
  have hrank : ∀ {e : Design Rat}, e.Reachable → ∀ c, ∀ t ∈ e.templates c,
      (e.reachable t).length < (e.reachable c).length := fun he c t ht => length_reachable_lt he.wellFormed ht
  have hle := length_reachable_le_size hd.wellFormed (isSome_cell_of_ofDesign hlib)
  obtain ⟨_, _, -, -, hreads⟩ := exists_reads_of_done hd hlib hnames hs ht
  have hle' := length_reachable_le_size hs.reachable.wellFormed hreads.exists_cell
  have hfuel : d.dependencies top = postorder d.templates (d.cells.size + s.design.cells.size + 1) [] top :=
    postorder_fuel (hrank hd) (by omega) (by omega)
  have hfuel' : s.design.dependencies t =
      postorder s.design.templates (d.cells.size + s.design.cells.size + 1) [] t :=
    postorder_fuel (hrank hs.reachable) (by omega) (by omega)
  rw [hfuel, hfuel']
  exact forall₂_postorder (biUnique_done hnames hs hlisted) hnext _ .nil ht

end

/-- Importing an exported library and exporting what it makes gives the library again, whatever the coordinates of the
design: the same cells in the same order. The reached cells have different names, all their instances have boxes, and
different layers have different numbers. -/
theorem ofDesign_toDesign {d : Design Rat} (hd : d.Reachable) {top : CellId}
    (hnames : ∀ a ∈ d.reachable top, ∀ b ∈ d.reachable top, d.name (.cell a) = d.name (.cell b) → a = b)
    (hbound : ∀ c ∈ d.reachable top, ∀ i, .inst i ∈ d.children c → (d.box? (.inst i)).isSome)
    {layers : LayerTable} (hlayers : layers.Injective) {ratio : Rat} (hratio : 0 < ratio) (freeze : Bool)
    {lib : Library Rat} (hlib : ofDesign d top layers ratio = .ok lib) : ∃ e t,
    toDesign lib (d.name (.cell top)) layers.reverse ratio freeze = .ok (e, t) ∧ ofDesign e t layers ratio = .ok lib := by
  obtain ⟨hunit, hcells⟩ := ofDesign_ok hlib
  have himportable := importable_of_ofDesign hd.wellFormed hlib hnames hlayers
  obtain ⟨s, t, himport, hs, hlisted, hdone⟩ := exists_import himportable ratio freeze
  have hscale : (lib.importConfig layers.reverse ratio freeze).scale = ratio := by
    rw [importConfig, hunit, if_pos hratio]
  have ht : Done d top s top t := ⟨self_mem_reachable d top, hdone⟩
  refine ⟨s.design, t, himport, ?_⟩
  have hcopies : List.Forall₂ (fun c k => cellOf s.design layers ratio t k = cellOf d layers ratio top c)
      (d.dependencies top) (s.design.dependencies t) :=
    (forall₂_dependencies hd hlib hnames hs hlisted hbound ht).imp fun c k hck =>
      cellOf_done hd hlib hnames hs hlisted hlayers rfl hscale hratio ht hck
  have hexport : (s.design.dependencies t).mapM (cellOf s.design layers ratio t) = .ok lib.cells := by
    rw [mapM_ok_iff] at hcells ⊢
    exact (forall₂_iff_of_forall₂ (fun c k source hck => by rw [hck]) hcopies).mp hcells
  show Except.bind ((s.design.dependencies t).mapM (cellOf s.design layers ratio t)) _ = _
  rw [hexport, ← hunit]
  rfl

/-- A row of two instances of a frozen pad, of which no coordinate is a whole number of tenths. -/
def thirdsRow : List (Operation Rat) :=
  [.addCell "pad", .addPolygon ⟨0⟩ "plate" "met1", .setBox (.polygon ⟨0⟩) ⟨1 / 3, 1 / 7, 5 / 3, 5 / 7⟩, .freeze ⟨0⟩,
    .addCell "row", .addInstance ⟨1⟩ "left" ⟨0⟩, .setBox (.inst ⟨0⟩) ⟨2 / 3, 7 / 3, 8 / 3, 3⟩,
    .addPolygon ⟨1⟩ "bar" "via1", .setBox (.polygon ⟨1⟩) ⟨-4 / 3, 0, 7 / 9, 1 / 6⟩, .addInstance ⟨1⟩ "right" ⟨0⟩,
    .setBox (.inst ⟨1⟩) ⟨11 / 7, 0, 3, 1⟩]

theorem ofDesign_toDesign_thirdsRow : ∃ lib e t,
    ofDesign (empty.run thirdsRow) ⟨1⟩ ⟨[("met1", ⟨68, 20⟩), ("via1", ⟨68, 44⟩)]⟩ 10 = .ok lib ∧
      toDesign lib "row" (LayerTable.reverse ⟨[("met1", ⟨68, 20⟩), ("via1", ⟨68, 44⟩)]⟩) 10 true = .ok (e, t) ∧
      ofDesign e t ⟨[("met1", ⟨68, 20⟩), ("via1", ⟨68, 44⟩)]⟩ 10 = .ok lib := by
  have hreachable : (empty.run thirdsRow).reachable ⟨1⟩ = [⟨1⟩, ⟨0⟩] := by decide +kernel
  have hbound : ∀ c ∈ (empty.run thirdsRow).reachable ⟨1⟩, ∀ i, .inst i ∈ (empty.run thirdsRow).children c →
      ((empty.run thirdsRow).box? (.inst i)).isSome := by
    have hall : ∀ c ∈ (empty.run thirdsRow).reachable ⟨1⟩, ∀ node ∈ (empty.run thirdsRow).children c,
        ((empty.run thirdsRow).box? node).isSome := by rw [hreachable]; decide +kernel
    exact fun c hc i hi => hall c hc (.inst i) hi
  have hlib : ofDesign (empty.run thirdsRow) ⟨1⟩ ⟨[("met1", ⟨68, 20⟩), ("via1", ⟨68, 44⟩)]⟩ 10 = .ok ⟨10,
      [⟨"pad", [⟨68, 20, 0, 0, 13, 6⟩], []⟩,
        ⟨"row", [⟨68, 44, -13, 0, 8, 2⟩], [⟨"left", "pad", 7, 23⟩, ⟨"right", "pad", 16, 0⟩]⟩]⟩ := by decide +kernel
  obtain ⟨e, t, himport, hexport⟩ := ofDesign_toDesign ⟨thirdsRow, rfl⟩ (by rw [hreachable]; decide +kernel) hbound
    (by decide +kernel) (by decide +kernel) true hlib
  exact ⟨_, e, t, hlib, himport, hexport⟩

end Library

end RectLayout
