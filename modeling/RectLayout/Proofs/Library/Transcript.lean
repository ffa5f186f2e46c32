import RectLayout.Proofs.Design.Made
import RectLayout.Proofs.Library.Drawing
import RectLayout.Proofs.Library.Import

/-!
# What an import has read

While an import goes on, the names that are done are in the order in which they were read: each name once, and each cell
after the cells it refers to, whose copies its instances draw (`Transcribed`). Importing one more cell, if it succeeds,
keeps this and leaves no name out (`advances_importCell`); the names that are pending are not done in the meantime, which
is why no name is read twice. So an import that succeeds leaves a transcript of all cells that the top refers to.

From a transcript the drawing of the design is read off, cell by cell (`Transcribed.draws`): an instance is where its
reference says, and the corner of what its template contains is the corner of the cell in the library
(`Reads.content_corner`). So the design draws what the library draws, every reference taken as the place of the corner
of its cell (`flatten_toDesign`).
-/

namespace RectLayout.Library

open Design

section

variable {α : Type} [Scalar α] {lib : Library α} {config : ImportConfig α} {d e : Design α}
  {done done' : List (String × CellId)} {pending : List String} {s s' s'' : Imported α} {name : String} {k : CellId}

/-! ## Transcripts -/

/-- A placement is what a reference to a cell that is done stands for, but for its size. -/
structure RefPlaced (config : ImportConfig α) (done : List (String × CellId)) (r : LibraryRef) (p : Placement α) :
    Prop where
  name : p.name = r.name
  done : (r.cell, p.template) ∈ done
  x : p.box.x1 = fromUnits config r.x
  y : p.box.y1 = fromUnits config r.y

/-- A cell shows what a cell of a library has, whose references are to cells that are done, and has no objects but
those that it shows. -/
structure Reads (config : ImportConfig α) (d : Design α) (done : List (String × CellId)) (source : LibraryCell)
    (k : CellId) : Prop where
  exists_cell : (d.cell? k).isSome
  bound : ∀ n ∈ d.children k, (d.box? n).isSome
  rects : List.Forall₂ (RectShows config) source.rects (d.shapes k)
  refs : List.Forall₂ (RefPlaced config done) source.refs (d.placements k)

/-- The names that are done, with their cells, in the order in which they were read. -/
inductive Transcribed (lib : Library α) (config : ImportConfig α) (d : Design α) : List (String × CellId) → Prop
  | nil : Transcribed lib config d []
  | concat {done : List (String × CellId)} {name : String} {k : CellId} {source : LibraryCell} :
    Transcribed lib config d done → name ∉ done.map Prod.fst → lib.cell? name = some source →
    Reads config d done source k → Transcribed lib config d (done ++ [(name, k)])

omit [Scalar α] in
/-- There are no more names of cells than cells. -/
theorem length_le_of_nodup {names : List String} (hnodup : names.Nodup) (h : ∀ n ∈ names, (lib.cell? n).isSome) :
    names.length ≤ lib.cells.length := by
  have hsub : names ⊆ lib.cells.map LibraryCell.name := by
    intro n hn
    obtain ⟨source, hsource⟩ := Option.isSome_iff_exists.mp (h n hn)
    have heq := List.find?_some hsource
    exact List.mem_map.mpr ⟨source, List.mem_of_find?_eq_some hsource, by simpa using heq⟩
  have hle := (hnodup.subperm hsub).length_le
  rwa [List.length_map] at hle

theorem Reads.mono {source : LibraryCell} (h : Reads config d done source k)
    (hkeeps : ∀ c, (d.cell? c).isSome → SameContent c d e) : Reads config e done source k := by
  have hk := hkeeps k h.exists_cell
  refine ⟨?_, fun n hn => ?_, ?_, ?_⟩
  · rw [hk.cell]
    exact h.exists_cell
  · rw [hk.children] at hn
    rw [hk.box hn]
    exact h.bound n hn
  · rw [hk.shapes]
    exact h.rects
  · rw [hk.placements]
    exact h.refs

namespace Transcribed

/-- A transcript stays one while its cells keep their content. -/
theorem mono (h : Transcribed lib config d done) (hkeeps : ∀ c, (d.cell? c).isSome → SameContent c d e) :
    Transcribed lib config e done := by
  induction h with
  | nil => exact .nil
  | concat _ hfresh hsource hreads ih => exact .concat ih hfresh hsource (hreads.mono hkeeps)

/-- What is done was read from the library, with references to what was done before. -/
theorem exists_reads (h : Transcribed lib config d done) (hk : (name, k) ∈ done) :
    ∃ source before, before ⊆ done ∧ lib.cell? name = some source ∧ Reads config d before source k := by
  induction h with
  | nil => cases hk
  | concat _ _ hsource hreads ih =>
    rcases List.mem_append.mp hk with hk | hk
    · obtain ⟨source, before, hbefore, hreads⟩ := ih hk
      exact ⟨source, before, List.Subset.trans hbefore (List.subset_append_left _ _), hreads⟩
    · obtain ⟨rfl, rfl⟩ := Prod.mk.inj (List.mem_singleton.mp hk)
      exact ⟨_, _, List.subset_append_left _ _, hsource, hreads⟩

theorem nodup_names (h : Transcribed lib config d done) : (done.map Prod.fst).Nodup := by
  induction h with
  | nil => exact List.nodup_nil
  | concat _ hfresh _ _ ih =>
    rw [List.map_append]
    exact ih.append (List.nodup_singleton _) (List.disjoint_singleton.mpr hfresh)

/-- No more names are done than there are cells. -/
theorem length_le (h : Transcribed lib config d done) : done.length ≤ lib.cells.length := by
  rw [← List.length_map Prod.fst]
  refine length_le_of_nodup h.nodup_names (List.forall_mem_map.mpr fun q hq => ?_)
  obtain ⟨source, before, -, hsource, -⟩ := h.exists_reads hq
  rw [hsource]
  rfl

end Transcribed

/-! ## One more cell -/

/-- The content of a cell that was imported is that of the cell in the library. -/
theorem importContent_extended (hd : d.Reachable) {source : LibraryCell} {templates : List CellId}
    (htemplates : ∀ t ∈ templates, (d.cell? t).isSome) (h : importContent config source templates d = .ok (e, k)) :
    ∃ shapes placements, List.Forall₂ (RectShows config) source.rects shapes ∧
      List.Forall₂ (RefShows config) (source.refs.zip templates) placements ∧ Extended d e k shapes placements := by
  obtain ⟨e₁, hrects, -⟩ := bind_eq_ok_iff.mp h
  obtain ⟨shapes, hshapes⟩ := exists_forall₂ (exists_shape_of_foldlM hrects)
  obtain ⟨e', k', placements, hcontent, hplacements, hextended⟩ := importContent_ok hd hshapes htemplates
  obtain ⟨rfl, rfl⟩ := Prod.mk.inj (Except.ok.inj (h.symm.trans hcontent))
  exact ⟨shapes, placements, hshapes, hplacements, hextended⟩

/-- A state of an import whose design can be reached and whose names are transcribed. -/
structure Sound (lib : Library α) (config : ImportConfig α) (s : Imported α) : Prop where
  reachable : s.design.Reachable
  transcribed : Transcribed lib config s.design s.done

/-- What happens between two states of an import: more is done, but no name that is pending. -/
structure Advances (lib : Library α) (config : ImportConfig α) (pending : List String) (s s' : Imported α) : Prop where
  sound : Sound lib config s'
  subset : s.done ⊆ s'.done
  pending : ∀ n ∈ pending, n ∉ s.done.map Prod.fst → n ∉ s'.done.map Prod.fst

namespace Advances

theorem refl (hs : Sound lib config s) : Advances lib config pending s s :=
  ⟨hs, List.Subset.refl _, fun _ _ => id⟩

theorem trans (h : Advances lib config pending s s') (h' : Advances lib config pending s' s'') :
    Advances lib config pending s s'' :=
  ⟨h'.sound, List.Subset.trans h.subset h'.subset, fun n hn hfresh => h'.pending n hn (h.pending n hn hfresh)⟩

end Advances

/-- The references of a cell are imported one after another. -/
theorem advances_importRefs {fuel : Nat}
    (himport : ∀ {s s' : Imported α} {name : String} {k : CellId}, Sound lib config s →
      importCell lib config fuel pending s name = .ok (s', k) →
        Advances lib config pending s s' ∧ (name, k) ∈ s'.done)
    {refs : List LibraryRef} {templates templates' : List CellId} (hs : Sound lib config s)
    (h : refs.foldlM (fun (state, templates) r => do
      let (state, c) ← importCell lib config fuel pending state r.cell
      return (state, templates ++ [c])) (s, templates) = .ok (s', templates')) :
    Advances lib config pending s s' ∧ ∃ ks, templates' = templates ++ ks ∧
      List.Forall₂ (fun r k => (r.cell, k) ∈ s'.done) refs ks := by
  induction refs generalizing s templates with
  | nil =>
    obtain ⟨rfl, rfl⟩ := Prod.mk.inj (Except.ok.inj h)
    exact ⟨.refl hs, [], (List.append_nil _).symm, .nil⟩
  | cons r refs ih =>
    rw [List.foldlM_cons] at h
    obtain ⟨⟨s₁, templates₁⟩, hstep, h⟩ := bind_eq_ok_iff.mp h
    obtain ⟨⟨s₂, k⟩, hcell, hstep⟩ := bind_eq_ok_iff.mp hstep
    obtain ⟨rfl, rfl⟩ := Prod.mk.inj (Except.ok.inj hstep)
    obtain ⟨hfirst, hdone⟩ := himport hs hcell
    obtain ⟨hrest, ks, hks, hrefs⟩ := ih hfirst.sound h
    exact ⟨hfirst.trans hrest, k :: ks, by rw [hks, List.append_assoc]; rfl, .cons (hrest.subset hdone) hrefs⟩

/-- References to cells that are done are placed as they say. -/
theorem forall₂_refPlaced {refs : List LibraryRef} {ks : List CellId} {ps : List (Placement α)}
    (hdone : List.Forall₂ (fun r k => (r.cell, k) ∈ done) refs ks)
    (hps : List.Forall₂ (RefShows config) (refs.zip ks) ps) : List.Forall₂ (RefPlaced config done) refs ps := by
  induction hdone generalizing ps with
  | nil =>
    rw [List.zip_nil_left, List.forall₂_nil_left_iff] at hps
    rw [hps]
    exact .nil
  | cons hk _ ih =>
    rw [List.zip_cons_cons] at hps
    cases hps with
    | cons hp hps =>
      obtain ⟨hname, htemplate, hx, hy⟩ := hp
      refine .cons ⟨hname, ?_, hx, hy⟩ (ih hps)
      rw [htemplate]
      exact hk

/-- A cell whose references are all to cells that are done can be read next. -/
theorem Sound.concat (hs : Sound lib config s) (hfresh : name ∉ s.done.map Prod.fst) {source : LibraryCell}
    (hsource : lib.cell? name = some source) {templates : List CellId}
    (hdone : List.Forall₂ (fun r k => (r.cell, k) ∈ s.done) source.refs templates)
    (hcontent : importContent config source templates s.design = .ok (d, k)) :
    Sound lib config ⟨d, s.done ++ [(name, k)]⟩ := by
  have hexists : ∀ t ∈ templates, (s.design.cell? t).isSome := by
    intro t ht
    obtain ⟨r, -, hr⟩ := exists_of_forall₂ hdone ht
    obtain ⟨_, _, -, -, hreads⟩ := hs.transcribed.exists_reads hr
    exact hreads.exists_cell
  obtain ⟨shapes, placements, hshapes, hplacements, hextended⟩ := importContent_extended hs.reachable hexists hcontent
  have hreads : Reads config d s.done source k := by
    refine ⟨hextended.exists_cell, hextended.bound, ?_, ?_⟩
    · rw [hextended.shapes]
      exact hshapes
    · rw [hextended.placements]
      exact forall₂_refPlaced hdone hplacements
  exact ⟨hextended.reachable, .concat (hs.transcribed.mono hextended.others) hfresh hsource hreads⟩

/-- An import of a cell that succeeds leaves it done, after all cells that it refers to. -/
theorem advances_importCell {fuel : Nat} (hs : Sound lib config s)
    (h : importCell lib config fuel pending s name = .ok (s', k)) :
    Advances lib config pending s s' ∧ (name, k) ∈ s'.done := by
  induction fuel generalizing pending s s' name k with
  | zero => cases h
  | succ fuel ih =>
    unfold importCell at h
    split at h
    · rename_i c hlookup
      obtain ⟨rfl, rfl⟩ := Prod.mk.inj (Except.ok.inj h)
      obtain ⟨l₁, l₂, hdone, -⟩ := List.lookup_eq_some_iff.mp hlookup
      exact ⟨.refl hs, by rw [hdone]; simp⟩
    · rename_i hlookup
      have hfresh : name ∉ s.done.map Prod.fst := by
        intro hname
        obtain ⟨⟨n, c⟩, hmem, rfl⟩ := List.mem_map.mp hname
        simpa using List.lookup_eq_none_iff.mp hlookup _ hmem
      split at h
      · cases h
      · rename_i hnot
        split at h
        · cases h
        · rename_i source hsource
          obtain ⟨⟨s₁, templates⟩, hrefs, h⟩ := bind_eq_ok_iff.mp h
          obtain ⟨⟨d, c⟩, hcontent, h⟩ := bind_eq_ok_iff.mp h
          obtain ⟨rfl, rfl⟩ := Prod.mk.inj (Except.ok.inj h)
          obtain ⟨hadvances, ks, hnew, hks⟩ := advances_importRefs ih hs hrefs
          obtain rfl : templates = ks := hnew
          -- while its references were read, the name was pending
          have hfresh₁ := hadvances.pending name List.mem_cons_self hfresh
          refine ⟨⟨hadvances.sound.concat hfresh₁ hsource hks hcontent, ?_, fun n hn hn' => ?_⟩, by simp⟩
          · exact List.Subset.trans hadvances.subset (List.subset_append_left _ _)
          · have hn₁ := hadvances.pending n (List.mem_cons_of_mem name hn) hn'
            have hne : n ≠ name := by
              rintro rfl
              exact hnot (List.contains_iff_mem.mpr hn)
            simp only [List.map_append, List.mem_append, not_or]
            exact ⟨hn₁, by simpa using hne⟩

end

variable {lib : Library Rat} {config : ImportConfig Rat} {d : Design Rat} {done : List (String × CellId)}
  {name : String} {k : CellId} {source : LibraryCell}

/-! ## Corners -/

theorem fromUnits_eq (config : ImportConfig Rat) (n : Int) : fromUnits config n = n / config.scale := rfl

/-- The least of some lengths is the least of them in units. -/
theorem eq_fromUnits_min (hscale : 0 < config.scale) {ns : List Int} {v : Rat}
    (h : IsLeast {w | w ∈ ns.map (fromUnits config)} v) : v = fromUnits config (ns.min?.getD 0) := by
  obtain ⟨n, hn, rfl⟩ := List.mem_map.mp h.1
  cases hmin : ns.min? with
  | none =>
    rw [List.min?_eq_none_iff.mp hmin] at hn
    cases hn
  | some m =>
    obtain ⟨hm, hleast⟩ := List.min?_eq_some_iff.mp hmin
    have hmn : (m : Rat) ≤ n := by exact_mod_cast hleast n hn
    refine le_antisymm (h.2 (List.mem_map_of_mem hm)) ?_
    rw [Option.getD_some, fromUnits_eq, fromUnits_eq]
    exact div_le_div_of_nonneg_right hmn hscale.le

/-- A coordinate of the boxes in a cell, where the rectangles and the references have it in units. -/
theorem Reads.map_childBoxes (h : Reads config d done source k) {f : Box Rat → Rat} {g : LibraryRect → Int}
    {g' : LibraryRef → Int} (hg : ∀ r s, RectShows config r s → fromUnits config (g r) = f s.box)
    (hg' : ∀ r p, RefPlaced config done r p → fromUnits config (g' r) = f p.box) :
    (d.childBoxes k).map f = (source.rects.map g ++ source.refs.map g').map (fromUnits config) := by
  simp only [childBoxes_eq, List.map_append, List.map_map]
  congr 1
  · exact (map_eq_of_forall₂ hg h.rects).symm
  · exact (map_eq_of_forall₂ hg' h.refs).symm

/-- The content of a cell has the corner that the cell has in the library. -/
theorem Reads.content_corner (h : Reads config d done source k) (hscale : 0 < config.scale) (hd : d.Reachable)
    (hk : ¬ d.ShowsNothing k) : ∃ content, d.contentBox? k = some content ∧
      content.x1 = fromUnits config source.corner.1 ∧ content.y1 = fromUnits config source.corner.2 := by
  obtain ⟨content, hcontent⟩ := Box.exists_tight fun hnil => hk (childBoxes_eq_nil_iff.mp hnil)
  obtain ⟨hx, hy⟩ := Box.isLeast_corner_of_tight hcontent
  rw [h.map_childBoxes (fun r s hr => by rw [hr.2]) (fun r p hr => hr.x.symm)] at hx
  rw [h.map_childBoxes (fun r s hr => by rw [hr.2]) (fun r p hr => hr.y.symm)] at hy
  exact ⟨content, by rw [hd.contentBox?_eq_tight hk, hcontent], eq_fromUnits_min hscale hx, eq_fromUnits_min hscale hy⟩

/-! ## Drawings -/

/-- A drawn rectangle is one of the library, moved by a vector and below a path. -/
structure DrawnAt (config : ImportConfig Rat) (dx dy : Rat) (path : List String) (m : LibraryMark) (r : Mark Rat) :
    Prop where
  path : r.path = path ++ m.path
  layer : config.layers.lookup ⟨m.rect.layer, m.rect.datatype⟩ = some r.layer
  box : r.box = (⟨fromUnits config m.rect.x1, fromUnits config m.rect.y1, fromUnits config m.rect.x2,
    fromUnits config m.rect.y2⟩ : Box Rat).translate dx dy

/-- A rectangle of a cell whose corner is moved to the point of a reference is one of the reference. -/
theorem DrawnAt.below {dx dy : Rat} {path : List String} {r : LibraryRef} {target : LibraryCell} {m : LibraryMark}
    {s : Mark Rat} (h : DrawnAt config (dx + fromUnits config r.x - fromUnits config target.corner.1)
      (dy + fromUnits config r.y - fromUnits config target.corner.2) (path ++ [r.name]) m s) :
    DrawnAt config dx dy path (m.below r.name (r.byCorner target)) s := by
  have hmove : ∀ (n v w : Int) (dx : Rat), fromUnits config n + (dx + fromUnits config v - fromUnits config w) =
      fromUnits config (n + (v - w)) + dx := by
    intro n v w dx
    simp only [fromUnits_eq]
    push_cast
    ring
  refine ⟨?_, h.layer, ?_⟩
  · rw [h.path, LibraryMark.below, List.append_assoc]
    rfl
  · rw [h.box]
    simp only [Box.translate, LibraryMark.below, LibraryRect.shift, LibraryRef.byCorner, hmove]

/-- The cell `k` draws what the cell of a name draws in the library, given fuel for `n` levels. -/
def Draws (lib : Library Rat) (config : ImportConfig Rat) (d : Design Rat) (n : Nat) (name : String) (k : CellId) :
    Prop :=
  ∃ marks, (∀ fuel, n ≤ fuel → lib.drawFrom? LibraryRef.byCorner fuel name = some marks) ∧
    ∀ fuel, n ≤ fuel → ∀ dx dy path,
      List.Forall₂ (DrawnAt config dx dy path) marks ((d.flattenFrom fuel k dx dy path).map FlatRect.mark)

/-- A reference draws what its placement draws. -/
theorem drawRef?_of_refPlaced (hscale : 0 < config.scale) (hd : d.Reachable) (h : Transcribed lib config d done) {n : Nat}
    {r : LibraryRef} {p : Placement Rat} (hp : RefPlaced config done r p)
    (hdraws : Draws lib config d n r.cell p.template) : ∃ marks,
    (∀ fuel, n ≤ fuel → lib.drawRef? LibraryRef.byCorner (lib.drawFrom? LibraryRef.byCorner fuel) r = some marks) ∧
      ∀ fuel, n ≤ fuel → ∀ dx dy path,
        List.Forall₂ (DrawnAt config dx dy path) marks (d.placementMarks fuel dx dy path p) := by
  obtain ⟨target, before, -, htarget, hreads⟩ := h.exists_reads hp.done
  obtain ⟨marks, hlibrary, hdesign⟩ := hdraws
  refine ⟨marks.map (·.below r.name (r.byCorner target)), fun fuel hn => ?_, fun fuel hn dx dy path => ?_⟩
  · rw [drawRef?, htarget, hlibrary fuel hn]
    rfl
  · by_cases hnothing : d.ShowsNothing p.template
    · have hnil := hdesign fuel hn dx dy path
      rw [flattenFrom_of_showsNothing hnothing, List.map_nil, List.forall₂_nil_right_iff] at hnil
      rw [hnil, placementMarks_of_showsNothing hnothing]
      exact .nil
    · obtain ⟨content, hcontent, hx, hy⟩ := hreads.content_corner hscale hd hnothing
      rw [placementMarks, hcontent, hp.name, hp.x, hp.y, List.forall₂_map_left_iff]
      dsimp only
      rw [hx, hy]
      exact (hdesign fuel hn _ _ _).imp fun m s hm => hm.below

/-- The references of a cell draw what its placements draw. -/
theorem drawRefs_of_refPlaced (hscale : 0 < config.scale) (hd : d.Reachable) (h : Transcribed lib config d done)
    {n : Nat} (hdraws : ∀ name k, (name, k) ∈ done → Draws lib config d n name k) {refs : List LibraryRef}
    {ps : List (Placement Rat)} (hps : List.Forall₂ (RefPlaced config done) refs ps) : ∃ drawn,
    (∀ fuel, n ≤ fuel →
      refs.mapM (lib.drawRef? LibraryRef.byCorner (lib.drawFrom? LibraryRef.byCorner fuel)) = some drawn) ∧
      ∀ fuel, n ≤ fuel → ∀ dx dy path,
        List.Forall₂ (DrawnAt config dx dy path) drawn.flatten (ps.flatMap (d.placementMarks fuel dx dy path)) := by
  induction hps with
  | nil => exact ⟨[], fun _ _ => rfl, fun _ _ _ _ _ => .nil⟩
  | cons hp _ ih =>
    obtain ⟨marks, hlibrary, hdesign⟩ := drawRef?_of_refPlaced hscale hd h hp (hdraws _ _ hp.done)
    obtain ⟨drawn, hlibraryRest, hdesignRest⟩ := ih
    refine ⟨marks :: drawn, fun fuel hn => ?_, fun fuel hn dx dy path => ?_⟩
    · rw [List.mapM_cons, hlibrary fuel hn, hlibraryRest fuel hn]
      rfl
    · rw [List.flatten_cons, List.flatMap_cons]
      exact List.rel_append (hdesign fuel hn dx dy path) (hdesignRest fuel hn dx dy path)

/-- A cell that reads a cell of the library draws what that draws, if the cells before it do. -/
theorem Reads.draws (hreads : Reads config d done source k) (hsource : lib.cell? name = some source)
    (hscale : 0 < config.scale) (hd : d.Reachable) (h : Transcribed lib config d done) {n : Nat}
    (hdraws : ∀ name k, (name, k) ∈ done → Draws lib config d n name k) : Draws lib config d (n + 1) name k := by
  obtain ⟨drawn, hlibrary, hdesign⟩ := drawRefs_of_refPlaced hscale hd h hdraws hreads.refs
  refine ⟨source.rects.map (⟨[], ·⟩) ++ drawn.flatten, fun fuel hn => ?_, fun fuel hn dx dy path => ?_⟩
  · obtain ⟨fuel, rfl⟩ := Nat.exists_eq_add_of_le' (Nat.le_trans (Nat.le_add_left 1 n) hn)
    rw [drawFrom?_succ hsource, hlibrary fuel (by omega)]
    rfl
  · obtain ⟨fuel, rfl⟩ := Nat.exists_eq_add_of_le' (Nat.le_trans (Nat.le_add_left 1 n) hn)
    rw [marks_flattenFrom]
    refine List.rel_append ?_ (hdesign fuel (by omega) dx dy path)
    rw [List.forall₂_map_left_iff, List.forall₂_map_right_iff]
    exact hreads.rects.imp fun r s hr => ⟨(List.append_nil path).symm, hr.1, by rw [hr.2]⟩

/-- Everything that is done is drawn as in the library. -/
theorem Transcribed.draws (hscale : 0 < config.scale) (hd : d.Reachable) (h : Transcribed lib config d done) :
    ∀ name k, (name, k) ∈ done → Draws lib config d done.length name k := by
  induction h with
  | nil => intro name k hk; cases hk
  | @concat done name k source h _ hsource hreads ih =>
    rw [List.length_append, List.length_singleton]
    intro name' k' hk'
    rcases List.mem_append.mp hk' with hk' | hk'
    · obtain ⟨marks, hlibrary, hdesign⟩ := ih name' k' hk'
      exact ⟨marks, fun fuel hn => hlibrary fuel (by omega), fun fuel hn => hdesign fuel (by omega)⟩
    · obtain ⟨rfl, rfl⟩ := Prod.mk.inj (List.mem_singleton.mp hk')
      exact hreads.draws hsource hscale hd h ih

/-! ## The import of a library -/

/-- The units of a library in a unit of length: its own ratio if that is positive, else the one that is given. -/
def scale (lib : Library Rat) (ratio : Rat) : Rat := if 0 < lib.unitRatio then lib.unitRatio else ratio

/-- A drawn rectangle is one of the library, on the layer of its numbers and with its coordinates in units of length. -/
structure Drawn (layers : ReverseLayers) (scale : Rat) (m : LibraryMark) (r : Mark Rat) : Prop where
  path : r.path = m.path
  layer : layers.lookup ⟨m.rect.layer, m.rect.datatype⟩ = some r.layer
  box : r.box = ⟨m.rect.x1 / scale, m.rect.y1 / scale, m.rect.x2 / scale, m.rect.y2 / scale⟩

theorem DrawnAt.drawn {m : LibraryMark} {r : Mark Rat} (h : DrawnAt config 0 0 [] m r) :
    Drawn config.layers config.scale m r := by
  refine ⟨h.path, h.layer, ?_⟩
  rw [h.box]
  simp only [Box.translate, add_zero, fromUnits_eq]

/-- The design of an import draws, in order, what the library draws with the corner of every cell at the point of its
reference. Where all cells that the top refers to have their corner at the origin, that is what the library draws with
their origin at the point. -/
theorem flatten_toDesign {lib : Library Rat} {top : String} {layers : ReverseLayers} {ratio : Rat} {freeze : Bool}
    {d : Design Rat} {c : CellId} (hscale : 0 < lib.scale ratio)
    (h : lib.toDesign top layers ratio freeze = .ok (d, c)) : ∃ marks,
    lib.drawing? LibraryRef.byCorner top = some marks ∧
      List.Forall₂ (Drawn layers (lib.scale ratio)) marks ((d.flatten c).map FlatRect.mark) ∧
      ((∀ name, Relation.TransGen lib.RefersTo top name →
        ∀ source, lib.cell? name = some source → source.corner = (0, 0)) →
        lib.drawing? LibraryRef.byOrigin top = some marks) := by
  obtain ⟨⟨s, k⟩, hcell, h⟩ := bind_eq_ok_iff.mp h
  obtain ⟨rfl, rfl⟩ := Prod.mk.inj (Except.ok.inj h)
  have hstart : Sound lib ⟨layers, lib.scale ratio, freeze⟩ ⟨.empty, []⟩ := ⟨⟨[], rfl⟩, .nil⟩
  obtain ⟨hadvances, hdone⟩ := advances_importCell hstart hcell
  obtain ⟨hreachable, htranscribed⟩ := hadvances.sound
  obtain ⟨marks, hlibrary, hdesign⟩ := htranscribed.draws hscale hreachable top k hdone
  have hdrawing : lib.drawing? LibraryRef.byCorner top = some marks := hlibrary _ htranscribed.length_le
  -- fuel that is enough for the drawing of the design and for the transcript
  have hle := length_reachable_le hreachable.wellFormed k
  have hflatten : s.design.flatten k =
      s.design.flattenFrom (s.design.cells.size + 1 + s.done.length) k 0 0 [] :=
    flattenFrom_fuel hreachable.wellFormed hle (by omega) 0 0 []
  refine ⟨marks, hdrawing, ?_, fun hcorner => (drawing?_byOrigin hcorner).trans hdrawing⟩
  rw [hflatten]
  exact (hdesign _ (by omega) 0 0 []).imp fun m r hm => hm.drawn

/-- A pad away from the origin, drawn by a row twice and by the top, which also draws the row and an empty cell. -/
def sharedPad : Library Rat :=
  ⟨0, [⟨"pad", [⟨68, 20, 5, 5, 9, 7⟩], []⟩, ⟨"blank", [], []⟩,
    ⟨"row", [⟨66, 20, -1, 0, 3, 1⟩], [⟨"left", "pad", 2, 4⟩, ⟨"right", "pad", 8, 4⟩]⟩,
    ⟨"top", [], [⟨"gap", "blank", -9, -9⟩, ⟨"first", "row", 0, 0⟩, ⟨"own", "pad", -4, 6⟩]⟩]⟩

theorem flatten_toDesign_sharedPad : 0 < sharedPad.scale 2 ∧ ∃ d c,
    sharedPad.toDesign "top" [(⟨66, 20⟩, "poly"), (⟨68, 20⟩, "met1")] 2 true = .ok (d, c) ∧
      List.Forall₂ (Drawn [(⟨66, 20⟩, "poly"), (⟨68, 20⟩, "met1")] (sharedPad.scale 2))
        [⟨["first"], ⟨66, 20, 0, 0, 4, 1⟩⟩, ⟨["first", "left"], ⟨68, 20, 3, 4, 7, 6⟩⟩,
          ⟨["first", "right"], ⟨68, 20, 9, 4, 13, 6⟩⟩, ⟨["own"], ⟨68, 20, -4, 6, 0, 8⟩⟩]
        ((d.flatten c).map FlatRect.mark) := by
  have hscale : 0 < sharedPad.scale 2 := by decide +kernel
  have hsome : (sharedPad.toDesign "top" [(⟨66, 20⟩, "poly"), (⟨68, 20⟩, "met1")] 2 true).toOption.isSome := by
    decide +kernel
  cases h : sharedPad.toDesign "top" [(⟨66, 20⟩, "poly"), (⟨68, 20⟩, "met1")] 2 true with
  | error e => rw [h] at hsome; cases hsome
  | ok result =>
    obtain ⟨d, c⟩ := result
    obtain ⟨marks, hdrawing, hdrawn, -⟩ := flatten_toDesign hscale h
    have hmarks : sharedPad.drawing? LibraryRef.byCorner "top" = some [⟨["first"], ⟨66, 20, 0, 0, 4, 1⟩⟩,
        ⟨["first", "left"], ⟨68, 20, 3, 4, 7, 6⟩⟩, ⟨["first", "right"], ⟨68, 20, 9, 4, 13, 6⟩⟩,
        ⟨["own"], ⟨68, 20, -4, 6, 0, 8⟩⟩] := by decide +kernel
    obtain rfl := Option.some.inj (hdrawing.symm.trans hmarks)
    exact ⟨hscale, d, c, rfl, hdrawn⟩

/-- A cell away from the origin, placed at the origin. -/
def offsetUnit : Library Rat :=
  ⟨1, [⟨"unit", [⟨68, 20, 5, 5, 6, 6⟩], []⟩, ⟨"top", [], [⟨"u", "unit", 0, 0⟩]⟩]⟩

/-- An import does not put the origin of a cell to the point of a reference, but its corner. -/
theorem not_flatten_toDesign : ¬ ∀ (lib : Library Rat) (top : String) (layers : ReverseLayers) (ratio : Rat)
    (freeze : Bool) (d : Design Rat) (c : CellId), 0 < lib.scale ratio →
    lib.toDesign top layers ratio freeze = .ok (d, c) → ∃ marks, lib.drawing? LibraryRef.byOrigin top = some marks ∧
      List.Forall₂ (Drawn layers (lib.scale ratio)) marks ((d.flatten c).map FlatRect.mark) := by
  intro h
  have hflatten : (offsetUnit.toDesign "top" [(⟨68, 20⟩, "met1")] 1 false).toOption.map
      (fun r => (r.1.flatten r.2).map FlatRect.mark) = some [⟨["u"], "met1", ⟨0, 0, 1, 1⟩⟩] := by decide +kernel
  have hdrawing : offsetUnit.drawing? LibraryRef.byOrigin "top" = some [⟨["u"], ⟨68, 20, 5, 5, 6, 6⟩⟩] := by
    decide +kernel
  cases himport : offsetUnit.toDesign "top" [(⟨68, 20⟩, "met1")] 1 false with
  | error e => rw [himport] at hflatten; cases hflatten
  | ok result =>
    obtain ⟨d, c⟩ := result
    rw [himport] at hflatten
    obtain ⟨marks, hmarks, hdrawn⟩ := h offsetUnit "top" _ 1 false d c (by decide +kernel) himport
    obtain rfl := Option.some.inj (hmarks.symm.trans hdrawing)
    have hflatten : (d.flatten c).map FlatRect.mark = [⟨["u"], "met1", ⟨0, 0, 1, 1⟩⟩] := Option.some.inj hflatten
    rw [hflatten] at hdrawn
    cases hdrawn with
    | cons hfirst _ =>
      have hbox := congrArg Box.x1 hfirst.box
      revert hbox
      decide +kernel

end RectLayout.Library
