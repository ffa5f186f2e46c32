import Mathlib.Logic.Function.Iterate
import RectLayout.Proofs.Library.Inventory

/-!
# How an import ends

The names that are pending differ, and the library has a cell for each of them (`OnPath`), so calls are not nested deeper
than there are cells, and what a deeper call would say is never asked for (`iterate_importStep`). A content is refused
because of an unknown layer only, since all other edits of an import succeed (`importContent_error`). So an import that
fails says what is wrong with a cell that the top leads to (`defect_of_importCell`): the library has none of its name, it
leads to itself, or a rectangle of it is on no known layer. Where nothing is wrong, the import succeeds and leaves what
the inventory lists (`toDesign_decides`).
-/

namespace RectLayout.Library

open Design

variable {α : Type} [Scalar α] {lib : Library α} {config : ImportConfig α} {d : Design α} {s s' : Imported α}
  {source : LibraryCell} {pending : List String} {name top : String} {e : LayoutError} {fuel : Nat}

/-! ## Defects -/

/-- What is wrong with a cell that the top leads to, and the error that says so. -/
inductive Defect (lib : Library α) (layers : ReverseLayers) (top : String) : LayoutError → Prop
  | missing {name : String} : Relation.ReflTransGen lib.RefersTo top name → lib.cell? name = none →
    Defect lib layers top (.missingCell name)
  | recursive {name : String} : Relation.ReflTransGen lib.RefersTo top name →
    Relation.TransGen lib.RefersTo name name → Defect lib layers top (.recursiveInstance name name)
  | unknownLayer {name : String} {source : LibraryCell} {r : LibraryRect} :
    Relation.ReflTransGen lib.RefersTo top name → lib.cell? name = some source → r ∈ source.rects →
    layers.lookup ⟨r.layer, r.datatype⟩ = none → Defect lib layers top (.unknownLayer s!"{r.layer}/{r.datatype}")

/-- Nothing is wrong with the cells that the top leads to. -/
structure Importable (lib : Library α) (layers : ReverseLayers) (top : String) : Prop where
  exists_cell : ∀ name, Relation.ReflTransGen lib.RefersTo top name → (lib.cell? name).isSome
  acyclic : ∀ name, Relation.ReflTransGen lib.RefersTo top name → ¬ Relation.TransGen lib.RefersTo name name
  exists_layer : ∀ name source, Relation.ReflTransGen lib.RefersTo top name → lib.cell? name = some source →
    ∀ r ∈ source.rects, (layers.lookup ⟨r.layer, r.datatype⟩).isSome

omit [Scalar α] in
theorem Defect.not_importable {layers : ReverseLayers} (h : Defect lib layers top e) :
    ¬ lib.Importable layers top := by
  intro himportable
  cases h with
  | missing hname hnone =>
    have hsome := himportable.exists_cell _ hname
    rw [hnone] at hsome
    cases hsome
  | recursive hname hcycle => exact himportable.acyclic _ hname hcycle
  | unknownLayer hname hsource hr hnone =>
    have hsome := himportable.exists_layer _ _ hname hsource _ hr
    rw [hnone] at hsome
    cases hsome

/-- A content is refused because of the layer of a rectangle only. -/
theorem importContent_error (hd : d.Reachable) {templates : List CellId}
    (htemplates : ∀ t ∈ templates, (d.cell? t).isSome) (h : importContent config source templates d = .error e) :
    ∃ r ∈ source.rects, config.layers.lookup ⟨r.layer, r.datatype⟩ = none ∧
      e = .unknownLayer s!"{r.layer}/{r.datatype}" := by
  -- the rectangles of a known layer keep the cell being filled
  have hstep : ∀ f : Design α, (∃ S, Filling d f ⟨d.cells.size⟩ S []) → ∀ r n f',
      importRect config ⟨d.cells.size⟩ f r n = .ok f' → ∃ S, Filling d f' ⟨d.cells.size⟩ S [] := by
    rintro f ⟨S, hfill⟩ r n f' hf'
    cases hlayer : config.layers.lookup ⟨r.layer, r.datatype⟩ with
    | none => simp [importRect, hlayer] at hf'
    | some layer =>
      obtain ⟨f'', hf'', hfill⟩ := importRect_ok hfill (s := ⟨layer, _⟩) ⟨hlayer, rfl⟩ n
      obtain rfl := Except.ok.inj (hf'.symm.trans hf'')
      exact ⟨_, hfill⟩
  have hstart : ∃ S, Filling d (d.addCell source.name).1 ⟨d.cells.size⟩ S [] := ⟨[], filling_addCell hd source.name⟩
  rcases bind_eq_error_iff.mp h with hrects | ⟨d₁, hrects, -⟩
  · obtain ⟨⟨r, n⟩, hr, f, ⟨S, hfill⟩, hfail⟩ :=
      exists_error_of_foldlM (fun f hf q _ f' hf' => hstep f hf q.1 q.2 f' hf') hstart hrects
    refine ⟨r, (List.mem_zipIdx hr).2.2 ▸ List.getElem_mem _, ?_⟩
    cases hlayer : config.layers.lookup ⟨r.layer, r.datatype⟩ with
    | none =>
      simp only [importRect, hlayer, Except.error.injEq] at hfail
      exact ⟨rfl, hfail.symm⟩
    | some layer =>
      obtain ⟨f', hf', -⟩ := importRect_ok hfill (s := ⟨layer, _⟩) ⟨hlayer, rfl⟩ n
      cases hf'.symm.trans hfail
  · obtain ⟨shapes, hshapes⟩ := exists_forall₂ (exists_shape_of_foldlM hrects)
    obtain ⟨f, k, placements, hcontent, -⟩ := importContent_ok hd hshapes htemplates
    cases hcontent.symm.trans h

/-! ## Calls and their depth -/

/-- The import of the cells that references are to, one after another, where `rest` imports one of them. -/
def importRefs (rest : Imported α → String → Except LayoutError (Imported α × CellId)) (state : Imported α)
    (refs : List LibraryRef) : Except LayoutError (Imported α × List CellId) :=
  refs.foldlM (fun (state, templates) r => do
    let (state, c) ← rest state r.cell
    return (state, templates ++ [c])) (state, ([] : List CellId))

/-- The import of the cell of a name, where `rest` imports the cells that it refers to. -/
def importStep (lib : Library α) (config : ImportConfig α)
    (rest : List String → Imported α → String → Except LayoutError (Imported α × CellId)) (pending : List String)
    (state : Imported α) (name : String) : Except LayoutError (Imported α × CellId) :=
  match state.done.lookup name with
  | some c => .ok (state, c)
  | none =>
    if pending.contains name then .error (.recursiveInstance name name)
    else
      match lib.cell? name with
      | none => .error (.missingCell name)
      | some source => do
        let (state, templates) ← importRefs (rest (name :: pending)) state source.refs
        let (d, c) ← importContent config source templates state.design
        return (⟨d, state.done ++ [(name, c)]⟩, c)

theorem importCell_succ (fuel : Nat) :
    importCell lib config (fuel + 1) = importStep lib config (importCell lib config fuel) := rfl

/-- The names on the way to a cell differ, and the library has a cell for each. -/
structure OnPath (lib : Library α) (pending : List String) : Prop where
  nodup : pending.Nodup
  exists_cell : ∀ n ∈ pending, (lib.cell? n).isSome

omit [Scalar α] in
theorem OnPath.cons (h : OnPath lib pending) (hnew : name ∉ pending) (hsource : lib.cell? name = some source) :
    OnPath lib (name :: pending) :=
  ⟨List.nodup_cons.mpr ⟨hnew, h.nodup⟩, List.forall_mem_cons.mpr ⟨by rw [hsource]; rfl, h.exists_cell⟩⟩

omit [Scalar α] in
/-- No way is longer than there are cells. -/
theorem OnPath.length_le (h : OnPath lib pending) : pending.length ≤ lib.cells.length :=
  length_le_of_nodup h.nodup h.exists_cell

/-- A step asks the rest only when the name is new and the library has a cell for it. -/
theorem importStep_congr {rest rest' : List String → Imported α → String → Except LayoutError (Imported α × CellId)}
    (h : ∀ source, name ∉ pending → lib.cell? name = some source → rest (name :: pending) = rest' (name :: pending)) :
    importStep lib config rest pending s name = importStep lib config rest' pending s name := by
  unfold importStep
  split
  · rfl
  · split
    · rfl
    · rename_i hnew
      split
      · rfl
      · rename_i source hsource
        rw [h source (by simpa using hnew) hsource]

/-- Whatever calls would say that are nested deeper than there are cells, the outcome is the same. -/
theorem iterate_importStep (rest : List String → Imported α → String → Except LayoutError (Imported α × CellId))
    (hpath : OnPath lib pending) (hfuel : lib.cells.length < fuel + pending.length) :
    (importStep lib config)^[fuel] rest pending = importCell lib config fuel pending := by
  induction fuel generalizing pending with
  | zero =>
    have := hpath.length_le
    omega
  | succ fuel ih =>
    funext s name
    rw [Function.iterate_succ_apply', importCell_succ]
    exact importStep_congr fun source hnew hsource => ih (hpath.cons hnew hsource) (by rw [List.length_cons]; omega)

theorem importCell_add (fuel more : Nat) :
    importCell lib config (fuel + more) = (importStep lib config)^[fuel] (importCell lib config more) := by
  induction fuel with
  | zero => rw [Nat.zero_add, Function.iterate_zero, id]
  | succ fuel ih => rw [Nat.add_right_comm, importCell_succ, ih, Function.iterate_succ_apply']

/-- Fuel beyond the number of cells changes nothing. -/
theorem importCell_eq_of_lt (hpath : OnPath lib pending) {fuel' : Nat} (hfuel : lib.cells.length < fuel + pending.length)
    (hle : fuel ≤ fuel') : importCell lib config fuel' pending = importCell lib config fuel pending := by
  obtain ⟨more, rfl⟩ := Nat.exists_eq_add_of_le hle
  rw [importCell_add, iterate_importStep _ hpath hfuel]

/-! ## Errors -/

/-- Why a step fails. -/
theorem importStep_error {rest : List String → Imported α → String → Except LayoutError (Imported α × CellId)}
    (h : importStep lib config rest pending s name = .error e) :
    (name ∈ pending ∧ e = .recursiveInstance name name) ∨ (lib.cell? name = none ∧ e = .missingCell name) ∨
      ∃ source, name ∉ pending ∧ lib.cell? name = some source ∧
        (importRefs (rest (name :: pending)) s source.refs = .error e ∨
          ∃ s₁ templates, importRefs (rest (name :: pending)) s source.refs = .ok (s₁, templates) ∧
            importContent config source templates s₁.design = .error e) := by
  unfold importStep at h
  split at h
  · cases h
  · split at h
    · rename_i hpending
      exact .inl ⟨by simpa using hpending, (Except.error.inj h).symm⟩
    · rename_i hnew
      split at h
      · rename_i hnone
        exact .inr (.inl ⟨hnone, (Except.error.inj h).symm⟩)
      · rename_i source hsource
        refine .inr (.inr ⟨source, by simpa using hnew, hsource, ?_⟩)
        rcases bind_eq_error_iff.mp h with hrefs | ⟨⟨s₁, templates⟩, hrefs, h⟩
        · exact .inl hrefs
        · rcases bind_eq_error_iff.mp h with hcontent | ⟨_, -, h⟩
          · exact .inr ⟨s₁, templates, hrefs, hcontent⟩
          · cases h

/-- An import that fails says what is wrong with a cell that the top leads to. -/
theorem defect_of_importCell (hs : Sound lib config s) (hpath : OnPath lib pending)
    (hfuel : lib.cells.length < fuel + pending.length) (htop : Relation.ReflTransGen lib.RefersTo top name)
    (hpending : ∀ n ∈ pending, Relation.TransGen lib.RefersTo n name)
    (h : importCell lib config fuel pending s name = .error e) : Defect lib config.layers top e := by
  induction fuel generalizing pending s name with
  | zero =>
    have := hpath.length_le
    omega
  | succ fuel ih =>
    rw [importCell_succ] at h
    obtain ⟨hname, rfl⟩ | ⟨hnone, rfl⟩ | ⟨source, hnew, hsource, hrefs | ⟨s₁, templates, hrefs, hcontent⟩⟩ :=
      importStep_error h
    · exact .recursive htop (hpending name hname)
    · exact .missing htop hnone
    · obtain ⟨r, hr, ⟨s₁, templates⟩, hs₁, hfail⟩ := exists_error_of_foldlM
        (P := fun p : Imported α × List CellId => Sound lib config p.1) (fun p hp r _ p' hp' => by
          obtain ⟨⟨s₂, k⟩, hcell, hp'⟩ := bind_eq_ok_iff.mp hp'
          cases hp'
          exact (advances_importCell hp hcell).1.sound) hs hrefs
      have hrefers : lib.RefersTo name r.cell := ⟨source, hsource, r, hr, rfl⟩
      rcases bind_eq_error_iff.mp hfail with hcell | ⟨_, -, hfail⟩
      · refine ih hs₁ (hpath.cons hnew hsource) (by rw [List.length_cons]; omega) (htop.tail hrefers) ?_ hcell
        exact List.forall_mem_cons.mpr ⟨.single hrefers, fun n hn => (hpending n hn).tail hrefers⟩
      · cases hfail
    · obtain ⟨hadvances, ks, hnew, hks⟩ := advances_importRefs advances_importCell hs hrefs
      obtain rfl : templates = ks := hnew
      have htemplates : ∀ t ∈ templates, (s₁.design.cell? t).isSome := by
        intro t ht
        obtain ⟨r, -, hr⟩ := exists_of_forall₂ hks ht
        obtain ⟨_, _, -, -, hreads⟩ := hadvances.sound.transcribed.exists_reads hr
        exact hreads.exists_cell
      obtain ⟨r, hr, hlayer, rfl⟩ := importContent_error hadvances.sound.reachable htemplates hcontent
      exact .unknownLayer htop hsource hr hlayer

/-! ## Decisions -/

/-- What an import of a library is told. The library's own ratio counts if it is positive. -/
def importConfig (lib : Library α) (layers : ReverseLayers) (ratio : α) (freeze : Bool) : ImportConfig α :=
  ⟨layers, if 0 < lib.unitRatio then lib.unitRatio else ratio, freeze⟩

/-- Nothing is wrong with what was imported. -/
theorem Inventory.importable {c : CellId} (h : Inventory lib config top d c)
    (hacyclic : ∀ name, Relation.ReflTransGen lib.RefersTo top name → ¬ Relation.TransGen lib.RefersTo name name) :
    lib.Importable config.layers top := by
  have hcopies : ∀ name, Relation.ReflTransGen lib.RefersTo top name → ∃ source cell, lib.cell? name = some source ∧
      Copies config d source cell := by
    intro name hname
    obtain ⟨n, hn⟩ := List.mem_iff_getElem?.mp ((h.mem_names_iff name).mpr hname)
    rw [getElem?_cellNames] at hn
    obtain ⟨cell, hcell, rfl⟩ := Option.map_eq_some_iff.mp hn
    obtain ⟨source, hsource, hcopies⟩ := h.copies _ cell hcell
    exact ⟨source, cell, hsource, hcopies⟩
  refine ⟨fun name hname => ?_, hacyclic, fun name source hname hsource r hr => ?_⟩
  · obtain ⟨source, -, hsource, -⟩ := hcopies name hname
    rw [hsource]
    rfl
  · obtain ⟨source', cell, hsource', hcopies⟩ := hcopies name hname
    obtain rfl := Option.some.inj (hsource.symm.trans hsource')
    obtain ⟨p, -, polygon, -, hlayer, -⟩ := exists_of_forall₂ hcopies.polygons.flip hr
    rw [hlayer]
    rfl

/-- An import ends: no call of it is nested deeper than there are cells. It succeeds exactly if every cell that the top
leads to exists, does not lead to itself and has its rectangles on known layers, and otherwise says which of these is
wrong with one of them. If it succeeds, the design has one cell for each name that the top leads to, which copies the
cell of that name. -/
theorem toDesign_decides (lib : Library α) (top : String) (layers : ReverseLayers) (ratio : α) (freeze : Bool) :
    (∀ rest fuel, lib.cells.length < fuel →
      (importStep lib (lib.importConfig layers ratio freeze))^[fuel] rest [] ⟨.empty, []⟩ top =
        importCell lib (lib.importConfig layers ratio freeze) (lib.cells.length + 2) [] ⟨.empty, []⟩ top) ∧
    ((∃ d c, lib.toDesign top layers ratio freeze = .ok (d, c)) ↔ lib.Importable layers top) ∧
    (∀ e, lib.toDesign top layers ratio freeze = .error e → lib.Defect layers top e) ∧
    ∀ d c, lib.toDesign top layers ratio freeze = .ok (d, c) →
      Inventory lib (lib.importConfig layers ratio freeze) top d c := by
  have hpath : OnPath lib [] := ⟨List.nodup_nil, List.forall_mem_nil _⟩
  have hdepth : ∀ rest fuel, lib.cells.length < fuel →
      (importStep lib (lib.importConfig layers ratio freeze))^[fuel] rest [] ⟨.empty, []⟩ top =
        importCell lib (lib.importConfig layers ratio freeze) (lib.cells.length + 2) [] ⟨.empty, []⟩ top := by
    intro rest fuel hfuel
    have hmin : lib.cells.length < lib.cells.length + 1 + ([] : List String).length := by simp
    rw [iterate_importStep rest hpath (by rw [List.length_nil]; omega), importCell_eq_of_lt hpath hmin hfuel,
      importCell_eq_of_lt hpath hmin (Nat.le_succ _)]
  have hstart : Sound lib (lib.importConfig layers ratio freeze) ⟨.empty, []⟩ := ⟨⟨[], rfl⟩, .nil⟩
  have herror : ∀ e, lib.toDesign top layers ratio freeze = .error e → lib.Defect layers top e := by
    intro e h
    rcases bind_eq_error_iff.mp h with hcell | ⟨_, -, h⟩
    · exact defect_of_importCell hstart hpath (by rw [List.length_nil]; omega) .refl (List.forall_mem_nil _) hcell
    · cases h
  have hok : ∀ d c, lib.toDesign top layers ratio freeze = .ok (d, c) →
      Inventory lib (lib.importConfig layers ratio freeze) top d c ∧ lib.Importable layers top := by
    intro d c h
    obtain ⟨⟨s, k⟩, hcell, h⟩ := bind_eq_ok_iff.mp h
    cases h
    obtain ⟨hinventory, hacyclic⟩ := inventory_of_importCell hcell
    exact ⟨hinventory, hinventory.importable hacyclic⟩
  refine ⟨hdepth, ⟨fun ⟨d, c, h⟩ => (hok d c h).2, fun himportable => ?_⟩, herror, fun d c h => (hok d c h).1⟩
  cases h : lib.toDesign top layers ratio freeze with
  | ok r => exact ⟨r.1, r.2, rfl⟩
  | error e => exact absurd himportable (herror e h).not_importable

/-- Two cells that refer to each other are found to lead to themselves, before the cell that is missing is asked for. -/
example : (⟨1, [⟨"a", [], [⟨"left", "b", 0, 0⟩]⟩, ⟨"b", [], [⟨"back", "a", 0, 0⟩, ⟨"gone", "c", 0, 0⟩]⟩]⟩ :
    Library Rat).toDesign "a" [] 1 false = .error (.recursiveInstance "a" "a") := by
  decide +kernel

end RectLayout.Library
