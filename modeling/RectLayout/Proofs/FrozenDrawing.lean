import RectLayout.Proofs.Design.Flatten
import RectLayout.Proofs.Frozen
import RectLayout.Proofs.Solve.Determinism

/-!
# What a frozen cell draws

Freezing a cell fixes its own objects and no others: a template that is not frozen can still be edited and solved for,
and all its instances show it as it is now (`not_flatten_frozen_run`). So the drawing of a frozen cell is cut at the
templates that are not frozen. Its outline (`Design.outline`) is the list of the rectangles that are drawn in frozen
cells reached through frozen cells only, and of the places at which other templates are put; a drawing is what the
pieces of the outline draw (`flattenFrom_eq_pieces`).

No operation but unfreezing changes the outline of a frozen cell (`piecesFrom_congr`). So the drawing of a frozen cell
differs later at most in what its unfrozen templates draw at their places, and it is the same if the cell reaches
frozen cells only (`flatten_frozen_run`).
-/

namespace RectLayout

/-- A piece of a drawing: a rectangle, or the place at which a template is drawn. -/
inductive Piece (α : Type) where
  | rect (r : FlatRect α)
  /-- The lower left corner of the template's content comes to the point. -/
  | place (template : CellId) (x y : α) (path : List String)
  deriving DecidableEq, Repr

namespace Design

variable {α : Type} [Scalar α] {d e : Design α} {solid : CellId → Bool} {c F : CellId} {b : Box α}

/-! ## Pieces of a drawing -/

/-- The drawing of a cell at an offset below a path, in which only the templates that are `solid` are drawn. -/
def piecesFrom (d : Design α) (solid : CellId → Bool) : Nat → CellId → α → α → List String → List (Piece α)
  | 0, _, _, _, _ => []
  | fuel + 1, c, dx, dy, path =>
    match d.cell? c with
    | none => []
    | some cell =>
      (d.flatPolygons cell dx dy path).map .rect ++ cell.instances.flatMap fun i =>
        match d.instance? i with
        | none => []
        | some inst =>
          match inst.box with
          | none => []
          | some box =>
            if solid inst.template then
              match d.contentBox? inst.template with
              | none => []
              | some content =>
                piecesFrom d solid fuel inst.template (dx + box.x1 - content.x1) (dy + box.y1 - content.y1)
                  (path ++ [inst.name])
            else [.place inst.template (dx + box.x1) (dy + box.y1) (path ++ [inst.name])]

/-- What a piece draws in a design. -/
def drawPiece (d : Design α) : Piece α → List (FlatRect α)
  | .rect r => [r]
  | .place t x y path =>
    match d.contentBox? t with
    | none => []
    | some content => d.flattenFrom (d.cells.size + 1) t (x - content.x1) (y - content.y1) path

/-- The drawing of a cell with its unfrozen templates left open. -/
def outline (d : Design α) (c : CellId) : List (Piece α) :=
  d.piecesFrom (fun t => (d.frozenBox? t).isSome) (d.cells.size + 1) c 0 0 []

/-- Fuel for as many levels as cells are reached is enough for the pieces of a drawing. -/
theorem piecesFrom_fuel (h : d.WellFormed) {fuel fuel' : Nat} (hf : (d.reachable c).length ≤ fuel)
    (hf' : (d.reachable c).length ≤ fuel') (dx dy : α) (path : List String) :
    d.piecesFrom solid fuel c dx dy path = d.piecesFrom solid fuel' c dx dy path := by
  induction fuel generalizing fuel' c dx dy path with
  | zero =>
    have hpos := length_reachable_pos d c
    omega
  | succ fuel ih =>
    cases fuel' with
    | zero =>
      have hpos := length_reachable_pos d c
      omega
    | succ fuel' =>
      unfold piecesFrom
      cases hcell : d.cell? c with
      | none => rfl
      | some cell =>
        simp only
        congr 1
        refine List.flatMap_congr fun i hi => ?_
        cases hinst : d.instance? i with
        | none => rfl
        | some inst =>
          have hlt := length_reachable_lt h (template_mem_templates hcell hi hinst)
          simp only
          split
          · rfl
          · split
            · split
              · rfl
              · exact ih (by omega) (by omega) _ _ _
            · rfl

/-- A drawing is what its pieces draw. -/
theorem flattenFrom_eq_pieces (h : d.WellFormed) (solid : CellId → Bool) {fuel : Nat}
    (hf : (d.reachable c).length ≤ fuel) (dx dy : α) (path : List String) :
    d.flattenFrom fuel c dx dy path = (d.piecesFrom solid fuel c dx dy path).flatMap d.drawPiece := by
  induction fuel generalizing c dx dy path with
  | zero =>
    have hpos := length_reachable_pos d c
    omega
  | succ fuel ih =>
    unfold flattenFrom piecesFrom
    cases hcell : d.cell? c with
    | none => rfl
    | some cell =>
      have hrects : ∀ l : List (FlatRect α), (l.map Piece.rect).flatMap d.drawPiece = l := by
        intro l
        rw [List.flatMap_map]
        exact List.flatMap_singleton' l
      simp only [List.flatMap_append, hrects, List.flatMap_assoc]
      congr 1
      refine List.flatMap_congr fun i hi => ?_
      cases hinst : d.instance? i with
      | none => rfl
      | some inst =>
        have hlt := length_reachable_lt h (template_mem_templates hcell hi hinst)
        simp only
        cases hbox : inst.box with
        | none => rfl
        | some box =>
          cases hcontent : d.contentBox? inst.template with
          | none => by_cases hs : solid inst.template <;> simp [hs, drawPiece, hcontent]
          | some content =>
            by_cases hs : solid inst.template
            · simp only [hs, if_true]
              exact ih (by omega) _ _ _
            · -- the template is drawn at its place with fuel for any cell
              simp only [hs, Bool.false_eq_true, if_false, List.flatMap_singleton, drawPiece, hcontent]
              exact flattenFrom_fuel h (by omega) (length_reachable_le h _) _ _ _

/-- The places that are left open are of templates that are not solid. -/
theorem not_solid_of_place {fuel : Nat} {dx dy x y : α} {path path' : List String} {t : CellId}
    (ht : .place t x y path' ∈ d.piecesFrom solid fuel c dx dy path) : t ∈ d.reachable c ∧ solid t = false := by
  induction fuel generalizing c dx dy path with
  | zero => simp [piecesFrom] at ht
  | succ fuel ih =>
    unfold piecesFrom at ht
    cases hcell : d.cell? c with
    | none => simp [hcell] at ht
    | some cell =>
      simp only [hcell, List.mem_append, List.mem_map, reduceCtorEq, and_false, exists_false, false_or,
        List.mem_flatMap] at ht
      obtain ⟨i, hi, ht⟩ := ht
      cases hinst : d.instance? i with
      | none => simp [hinst] at ht
      | some inst =>
        have hsub := reachable_subset (template_mem_templates hcell hi hinst)
        cases hbox : inst.box with
        | none => simp [hinst, hbox] at ht
        | some box =>
          by_cases hs : solid inst.template
          · cases hcontent : d.contentBox? inst.template with
            | none => simp [hinst, hbox, hs, hcontent] at ht
            | some content =>
              simp only [hinst, hbox, hs, if_true, hcontent] at ht
              exact ⟨hsub (ih ht).1, (ih ht).2⟩
          · simp only [hinst, hbox, hs, Bool.false_eq_true, if_false, List.mem_singleton, Piece.place.injEq] at ht
            obtain ⟨rfl, -⟩ := ht
            exact ⟨hsub (self_mem_reachable d _), by simpa using hs⟩

/-! ## The outline of a frozen cell -/

theorem flatPolygons_congr (h : SameContent c d e) {cell : Cell α} (hcell : d.cell? c = some cell) (dx dy : α)
    (path : List String) : e.flatPolygons cell dx dy path = d.flatPolygons cell dx dy path := by
  refine List.filterMap_congr fun p hp => ?_
  have hchild : .polygon p ∈ d.children c := by simp [children, hcell, hp]
  rw [h.polygon p hchild]

/-- Designs in which solid cells have the same objects and the same content have the same pieces. -/
theorem piecesFrom_congr (hsame : ∀ k, solid k → SameContent k d e)
    (hcontent : ∀ k, solid k → e.contentBox? k = d.contentBox? k) (hc : solid c) (fuel : Nat) (dx dy : α)
    (path : List String) : e.piecesFrom solid fuel c dx dy path = d.piecesFrom solid fuel c dx dy path := by
  induction fuel generalizing c dx dy path with
  | zero => rfl
  | succ fuel ih =>
    have hcSame := hsame c hc
    unfold piecesFrom
    rw [hcSame.cell]
    cases hcell : d.cell? c with
    | none => rfl
    | some cell =>
      simp only [flatPolygons_congr hcSame hcell]
      congr 1
      refine List.flatMap_congr fun i hi => ?_
      rw [hcSame.inst i (inst_mem_children_iff.mpr ⟨cell, hcell, hi⟩)]
      cases d.instance? i with
      | none => rfl
      | some inst =>
        simp only
        split
        · rfl
        · by_cases hs : solid inst.template
          · simp only [hs, if_true, hcontent _ hs]
            split
            · rfl
            · exact ih hs _ _ _
          · simp [hs]

/-- After a run that unfreezes nothing, the pieces of a frozen cell are those of before. -/
theorem piecesFrom_run (h : d.WellFormed) (hF : d.frozenBox? F = some b) {ops : List (Operation α)}
    (hops : ∀ k, .unfreeze k ∉ ops) (fuel : Nat) (dx dy : α) (path : List String) :
    (d.run ops).piecesFrom (fun t => (d.frozenBox? t).isSome) fuel F dx dy path =
      d.piecesFrom (fun t => (d.frozenBox? t).isSome) fuel F dx dy path := by
  have hsame : ∀ k, (d.frozenBox? k).isSome → SameContent k d (d.run ops) := by
    intro k hk
    obtain ⟨box, hbox⟩ := Option.isSome_iff_exists.mp hk
    exact sameContent_run h hbox (hops k)
  have hcontent : ∀ k, (d.frozenBox? k).isSome → (d.run ops).contentBox? k = d.contentBox? k := by
    intro k hk
    obtain ⟨box, hbox⟩ := Option.isSome_iff_exists.mp hk
    rw [contentBox?_of_frozenBox hbox, contentBox?_of_frozenBox ((hsame k hk).frozenBox.trans hbox)]
  exact piecesFrom_congr hsame hcontent (by simp [hF]) fuel dx dy path

/-- The drawing of a frozen cell has the same outline before and after every run that unfreezes nothing. -/
theorem flatten_run_eq_outline (h : d.WellFormed) (hF : d.frozenBox? F = some b) {ops : List (Operation α)}
    (hops : ∀ k, .unfreeze k ∉ ops) : (d.run ops).flatten F = (d.outline F).flatMap (d.run ops).drawPiece := by
  have he : (d.run ops).WellFormed := h.run ops
  -- fuel that is enough in both designs
  let fuel := (d.reachable F).length + ((d.run ops).reachable F).length
  calc (d.run ops).flatten F
      = (d.run ops).flattenFrom fuel F 0 0 [] :=
        flattenFrom_fuel he (length_reachable_le he F) (Nat.le_add_left _ _) 0 0 []
    _ = ((d.run ops).piecesFrom (fun t => (d.frozenBox? t).isSome) fuel F 0 0 []).flatMap (d.run ops).drawPiece :=
        flattenFrom_eq_pieces he _ (Nat.le_add_left _ _) 0 0 []
    _ = (d.piecesFrom (fun t => (d.frozenBox? t).isSome) fuel F 0 0 []).flatMap (d.run ops).drawPiece := by
        rw [piecesFrom_run h hF hops]
    _ = (d.outline F).flatMap (d.run ops).drawPiece := by
        rw [outline, piecesFrom_fuel h (Nat.le_add_right _ _) (length_reachable_le h F)]

/-- A later drawing of a frozen cell differs at most in what its unfrozen templates draw at their places; if the cell
reaches frozen cells only, it is the same. -/
theorem flatten_frozen_run (h : d.Reachable) (hF : d.frozenBox? F = some b) {ops : List (Operation α)}
    (hops : ∀ k, .unfreeze k ∉ ops) :
    d.flatten F = (d.outline F).flatMap d.drawPiece ∧
      (d.run ops).flatten F = (d.outline F).flatMap (d.run ops).drawPiece ∧
      (∀ t x y path, .place t x y path ∈ d.outline F → t ∈ d.reachable F ∧ d.frozenBox? t = none) ∧
      ((∀ t ∈ d.reachable F, (d.frozenBox? t).isSome) → (d.run ops).flatten F = d.flatten F) := by
  have hd := h.wellFormed
  have hbefore : d.flatten F = (d.outline F).flatMap d.drawPiece :=
    flattenFrom_eq_pieces hd _ (length_reachable_le hd F) 0 0 []
  have hafter := flatten_run_eq_outline hd hF hops
  have hplaces : ∀ t x y path, .place t x y path ∈ d.outline F → t ∈ d.reachable F ∧ d.frozenBox? t = none := by
    intro t x y path ht
    have hopen := not_solid_of_place ht
    exact ⟨hopen.1, by simpa using hopen.2⟩
  refine ⟨hbefore, hafter, hplaces, fun hall => ?_⟩
  rw [hbefore, hafter]
  refine List.flatMap_congr fun piece hpiece => ?_
  cases piece with
  | rect r => rfl
  | place t x y path =>
    obtain ⟨ht, hopen⟩ := hplaces t x y path hpiece
    have hfrozen := hall t ht
    rw [hopen] at hfrozen
    cases hfrozen

/-! ## A frozen cell with a template that is not frozen -/

/-- A frozen cell `top` with a polygon and an instance of the cell `tile`, which is not frozen. -/
def tileInTop : List (Operation Rat) :=
  [.addCell "tile", .addPolygon ⟨0⟩ "cut" "via1", .setBox (.polygon ⟨0⟩) ⟨0, 0, 2, 2⟩, .addCell "top",
    .addPolygon ⟨1⟩ "frame" "met1", .setBox (.polygon ⟨1⟩) ⟨0, 0, 9, 9⟩, .addInstance ⟨1⟩ "corner" ⟨0⟩,
    .setBox (.inst ⟨0⟩) ⟨4, 4, 6, 6⟩, .freeze ⟨1⟩]

theorem flatten_frozen_run_tileInTop : (empty.run tileInTop).frozenBox? ⟨1⟩ = some ⟨0, 0, 9, 9⟩ ∧
    (empty.run tileInTop).outline ⟨1⟩ = [.rect ⟨["frame"], "met1", ⟨0, 0, 9, 9⟩⟩, .place ⟨0⟩ 4 4 ["corner"]] ∧
    ((empty.run tileInTop).run [.setBox (.polygon ⟨0⟩) ⟨1, 1, 6, 2⟩, .addPolygon ⟨1⟩ "late" "met1"]).flatten ⟨1⟩ =
      [⟨["frame"], "met1", ⟨0, 0, 9, 9⟩⟩, ⟨["corner", "cut"], "via1", ⟨4, 4, 9, 5⟩⟩] := by
  have hfrozen : (empty.run tileInTop).frozenBox? ⟨1⟩ = some ⟨0, 0, 9, 9⟩ := by decide +kernel
  have houtline : (empty.run tileInTop).outline ⟨1⟩ =
      [.rect ⟨["frame"], "met1", ⟨0, 0, 9, 9⟩⟩, .place ⟨0⟩ 4 4 ["corner"]] := by decide +kernel
  have hops : ∀ k, .unfreeze k ∉ ([.setBox (.polygon ⟨0⟩) ⟨1, 1, 6, 2⟩, .addPolygon ⟨1⟩ "late" "met1"] :
      List (Operation Rat)) := by simp
  obtain ⟨-, hrun, -, -⟩ := flatten_frozen_run ⟨tileInTop, rfl⟩ hfrozen hops
  refine ⟨hfrozen, houtline, ?_⟩
  rw [hrun, houtline]
  decide +kernel

/-- A frozen cell does not always draw the same: its template is widened. -/
theorem not_flatten_frozen_run : ¬ ∀ (d : Design Rat) (F : CellId) (b : Box Rat) (ops : List (Operation Rat)),
    d.Reachable → d.frozenBox? F = some b → (∀ k, .unfreeze k ∉ ops) → (d.run ops).flatten F = d.flatten F := by
  intro h
  have hsame := h (empty.run tileInTop) ⟨1⟩ ⟨0, 0, 9, 9⟩ [.setBox (.polygon ⟨0⟩) ⟨0, 0, 4, 2⟩] ⟨tileInTop, rfl⟩
    (by decide +kernel) (by simp)
  have hne : ((empty.run tileInTop).run [.setBox (.polygon ⟨0⟩) ⟨0, 0, 4, 2⟩]).flatten ⟨1⟩ ≠
      (empty.run tileInTop).flatten ⟨1⟩ := by decide +kernel
  exact hne hsame

end Design

end RectLayout
