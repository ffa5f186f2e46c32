import RectLayout.Proofs.Design.Fitted
import RectLayout.Proofs.Solve.Report

/-!
# Drawings stay inside solved boxes

A cell is drawn everywhere as it is drawn on its own, moved as a whole (`exists_of_mem_flattenFrom`). So if a template
draws inside the box of its content, an instance that fits draws inside its own box (`InstanceFits.within_drawnBy`), and
then the cell of the instance draws inside its box if that is the one around its objects. By induction along the
templates all active cells do (`Settled.drawsWithin`), from the frozen cells on. A successful solve leaves its cells so
that this applies (`settled_solveWith`): what it solved for is drawn inside its boxes (`flatten_within_solveWith`),
wherever the cell of an instance is drawn (`DrawnAt`).

An instance in a frozen cell is not fitted, and what it draws can leave its box (`not_flatten_within_solveWith`).
-/

namespace RectLayout

namespace Box

/-- The content at the corner of a placed instance, as it is drawn at an offset. -/
theorem translate_movedTo (content : Box Rat) (x y dx dy : Rat) :
    content.translate (dx + x - content.x1) (dy + y - content.y1) = (content.movedTo x y).translate dx dy := by
  simp only [translate, movedTo, width, height, mk.injEq]
  refine ⟨?_, ?_, ?_, ?_⟩ <;> ring

end Box

namespace Design

section

variable {α : Type} [Scalar α] {d : Design α} {c k : CellId}

/-! ## Where cells are drawn -/

/-- In the drawing of `c` the cell `k` is drawn at an offset below a path. -/
inductive DrawnAt (d : Design α) (c : CellId) : List String → α → α → CellId → Prop
  | self : DrawnAt d c [] 0 0 c
  | inst {path : List String} {dx dy : α} {k : CellId} {i : InstanceId} {inst : Instance α} {box content : Box α} :
    DrawnAt d c path dx dy k → .inst i ∈ d.children k → d.instance? i = some inst → inst.box = some box →
    d.contentBox? inst.template = some content →
    DrawnAt d c (path ++ [inst.name]) (dx + box.x1 - content.x1) (dy + box.y1 - content.y1) inst.template

theorem isInfix_drawnBy {i : InstanceId} (hi : .inst i ∈ d.children k) (fuel : Nat) (dx dy : α) (path : List String) :
    d.drawnBy fuel i dx dy path <:+: d.flattenFrom (fuel + 1) k dx dy path := by
  obtain ⟨cell, hcell, hi⟩ := inst_mem_children_iff.mp hi
  rw [flattenFrom_succ hcell]
  refine List.IsInfix.trans ?_ (List.suffix_append _ _).isInfix
  rw [List.flatMap_def]
  exact List.infix_of_mem_flatten (List.mem_map_of_mem hi)

/-- Where a cell is drawn, its drawing is part of the whole. -/
theorem DrawnAt.isInfix_flatten (h : d.WellFormed) {path : List String} {dx dy : α} (hk : d.DrawnAt c path dx dy k) :
    d.flattenFrom (d.cells.size + 1) k dx dy path <:+: d.flatten c := by
  induction hk with
  | self => exact List.infix_refl _
  | @inst path dx dy k i inst box content _ hi hinst hbox hcontent ih =>
    have hle := length_reachable_le_size h (h.isSome_template i inst hinst)
    have hdrawn : d.drawnBy d.cells.size i dx dy path = d.flattenFrom (d.cells.size + 1) inst.template
        (dx + box.x1 - content.x1) (dy + box.y1 - content.y1) (path ++ [inst.name]) := by
      simp only [drawnBy, hinst, hbox, hcontent]
      exact flattenFrom_fuel h hle (by omega) _ _ _
    rw [← hdrawn]
    exact (isInfix_drawnBy hi _ dx dy path).trans ih

end

variable {d d' : Design Rat} {root c k t : CellId} {i : InstanceId} {b own : Box Rat} {config : SolveConfig Rat}
  {optimizer : ExternalOptimizer Rat} {r : SolveReport Rat}

/-! ## Drawings inside boxes -/

/-- What a cell draws elsewhere it draws here, moved. -/
theorem exists_of_mem_flattenFrom {fuel : Nat} {dx dy : Rat} {path : List String} {s : FlatRect Rat}
    (hs : s ∈ d.flattenFrom fuel c dx dy path) (x y : Rat) (path' : List String) :
    ∃ s' ∈ d.flattenFrom fuel c x y path', s.box = s'.box.translate (dx - x) (dy - y) := by
  rw [flattenFrom_eq_map] at hs
  obtain ⟨r, hr, rfl⟩ := List.mem_map.mp hs
  refine ⟨r.moved path' x y, ?_, ?_⟩
  · rw [flattenFrom_eq_map]
    exact List.mem_map_of_mem hr
  · simp only [FlatRect.moved, Box.translate_translate, add_sub_cancel]

/-- No rectangle that a cell draws is outside a box. -/
def DrawsWithin (d : Design Rat) (c : CellId) (b : Box Rat) : Prop := ∀ s ∈ d.flatten c, s.box.Within b

/-- A cell that draws within a box draws within the moved box elsewhere. -/
theorem DrawsWithin.flattenFrom (h : d.DrawsWithin c b) (hd : d.WellFormed) {fuel : Nat}
    (hf : (d.reachable c).length ≤ fuel) {dx dy : Rat} {path : List String} {s : FlatRect Rat}
    (hs : s ∈ d.flattenFrom fuel c dx dy path) : s.box.Within (b.translate dx dy) := by
  rw [flattenFrom_fuel hd hf (length_reachable_le hd c)] at hs
  obtain ⟨s', hs', heq⟩ := exists_of_mem_flattenFrom hs 0 0 []
  rw [heq, sub_zero, sub_zero]
  exact (h s' hs').translate dx dy

/-- An instance that fits draws inside its box if its template draws inside the box of its content. -/
theorem InstanceFits.within_drawnBy (h : d.InstanceFits i) (hd : d.WellFormed) {inst : Instance Rat}
    (hinst : d.instance? i = some inst) (hown : inst.box = some own)
    (hdraws : ∀ content, d.contentBox? inst.template = some content → d.DrawsWithin inst.template content)
    {dx dy : Rat} {path : List String} {s : FlatRect Rat} (hs : s ∈ d.drawnBy d.cells.size i dx dy path) :
    s.box.Within (own.translate dx dy) := by
  cases hcontent : d.contentBox? inst.template with
  | none => simp [drawnBy, hinst, hown, hcontent] at hs
  | some content =>
    simp only [drawnBy, hinst, hown, hcontent] at hs
    have hle := length_reachable_le_size hd (hd.isSome_template i inst hinst)
    have hwithin := (hdraws content hcontent).flattenFrom hd hle hs
    rwa [Box.translate_movedTo, ← h inst own content hinst hown hcontent] at hwithin

/-- The objects of an active cell that fits are inside its box. -/
theorem FitsContent.within_of_child (h : d.FitsContent c) (hc : d.isActive c) {n : Node} (hn : n ∈ d.children c)
    (hown : d.box? n = some own) (hb : d.box? (.cell c) = some b) : own.Within b := by
  have hmem : own ∈ d.childBoxes c := List.mem_filterMap.mpr ⟨n, hn, hown⟩
  refine Box.within_tight hmem ?_
  rw [h.tight_eq hc (List.ne_nil_of_mem hmem), hb]

/-- A cell that fits draws inside its box if its templates draw inside the boxes of their content. -/
theorem FitsContent.drawsWithin (h : d.FitsContent c) (hd : d.WellFormed) (hc : d.isActive c)
    (hdraws : ∀ t ∈ d.templates c, ∀ content, d.contentBox? t = some content → d.DrawsWithin t content)
    (hb : d.box? (.cell c) = some b) : d.DrawsWithin c b := by
  obtain ⟨cell, hcell, -⟩ := isActive_iff.mp hc
  intro s hs
  rw [flatten, flattenFrom_succ hcell] at hs
  rcases List.mem_append.mp hs with hs | hs
  · obtain ⟨p, hp, polygon, hpolygon, box, hbox, rfl⟩ := mem_flatPolygons_iff.mp hs
    rw [Box.translate_zero]
    refine h.within_of_child hc (n := .polygon p) ?_ ?_ hb
    · simp [children, hcell, hp]
    · simp [box?, hpolygon, hbox]
  · obtain ⟨i, hi, hs⟩ := List.mem_flatMap.mp hs
    have hchild : Node.inst i ∈ d.children c := inst_mem_children_iff.mpr ⟨cell, hcell, hi⟩
    obtain ⟨inst, hinst⟩ := hd.exists_instance hchild
    cases hown : inst.box with
    | none => simp [drawnBy, hinst, hown] at hs
    | some own =>
      have hown' : d.box? (.inst i) = some own := by simp [box?, hinst, hown]
      have ht : inst.template ∈ d.templates c := mem_templates_iff.mpr ⟨i, inst, hchild, hinst, rfl⟩
      have hwithin := (h.instances i hchild).within_drawnBy hd hinst hown (hdraws _ ht) hs
      rw [Box.translate_zero] at hwithin
      exact hwithin.trans (h.within_of_child hc hchild hown' hb)

/-! ## Settled designs -/

namespace Settled

variable {P : Box Rat → Prop}

/-- The content of a template is a frozen box or the box of an active cell. -/
theorem drawsWithin_content (hs : d.Settled P root) (hd : d.WellFormed) (hc : d.Active root c) (ht : t ∈ d.templates c)
    (hfrozen : ∀ b, d.frozenBox? t = some b → d.DrawsWithin t b)
    (hactive : d.Active root t → ∀ b, d.box? (.cell t) = some b → d.DrawsWithin t b) {content : Box Rat}
    (hcontent : d.contentBox? t = some content) : d.DrawsWithin t content := by
  rcases hd.isActive_or_frozenBox ht with hlive | ⟨b, hb⟩
  · rw [(hs.fits t (hc.template ht hlive)).contentBox hlive] at hcontent
    exact hactive (hc.template ht hlive) content hcontent
  · obtain rfl := Option.some.inj ((contentBox?_of_frozenBox hb).symm.trans hcontent)
    exact hfrozen b hb

/-- In a settled design all active cells draw inside their boxes, if the frozen cells that they draw do. -/
theorem drawsWithin (hs : d.Settled P root) (hd : d.WellFormed)
    (hfrozen : ∀ c t b, d.Active root c → t ∈ d.templates c → d.frozenBox? t = some b → d.DrawsWithin t b)
    (hc : d.Active root c) (hb : d.box? (.cell c) = some b) : d.DrawsWithin c b := by
  induction c using hd.template_induction generalizing b with
  | _ c ih =>
    refine (hs.fits c hc).drawsWithin hd hc.isActive (fun t ht content hcontent => ?_) hb
    exact hs.drawsWithin_content hd hc ht (fun b => hfrozen c t b hc ht) (fun hactive b hb => ih t ht hactive hb) hcontent

/-- In a settled design all instances of active cells draw inside their boxes, if the frozen cells draw inside theirs. -/
theorem within_drawnBy (hs : d.Settled P root) (hd : d.WellFormed)
    (hfrozen : ∀ c t b, d.Active root c → t ∈ d.templates c → d.frozenBox? t = some b → d.DrawsWithin t b)
    (hc : d.Active root c) (hi : .inst i ∈ d.children c) (hown : d.box? (.inst i) = some own) {dx dy : Rat}
    {path : List String} {s : FlatRect Rat} (hmem : s ∈ d.drawnBy d.cells.size i dx dy path) :
    s.box.Within (own.translate dx dy) := by
  obtain ⟨inst, hinst⟩ := hd.exists_instance hi
  have hown : inst.box = some own := by simpa [box?, hinst] using hown
  have ht : inst.template ∈ d.templates c := mem_templates_iff.mpr ⟨i, inst, hi, hinst, rfl⟩
  refine ((hs.fits c hc).instances i hi).within_drawnBy hd hinst hown (fun content hcontent => ?_) hmem
  exact hs.drawsWithin_content hd hc ht (fun b => hfrozen c _ b hc ht)
    (fun hactive b hb => hs.drawsWithin hd hfrozen hactive hb) hcontent

end Settled

/-- A successful solve settles its cells. -/
theorem settled_solveWith (hd : d.WellFormed) (h : d.solveWith root config optimizer = .ok (d', r)) (hs : r.success) :
    d'.Settled (fun _ => True) root := by
  obtain ⟨a, p, x, hrun⟩ := solvedBy_of_success h hs
  have hagree := agreeOutside_writeBoxes d a (correct p x config.correction).values
  have hbox := box_writeBoxes hd hrun.allocated (correct p x config.correction).values
  rw [hrun.design]
  refine (hagree.sameStructure.wellFormed hd).settled_propagate ⟨fun _ _ _ _ => trivial, fun _ _ _ _ => trivial⟩
    ⟨fun n hn => ?_, fun _ _ _ _ _ _ => trivial⟩
  rw [← hagree.solved] at hn
  obtain ⟨b, hb⟩ := Compiled.exists_read hrun.allocated (correct p x config.correction).values hn
  exact ⟨b, by rw [hbox, hb], trivial⟩

/-! ## After a solve -/

/-- After a successful solve, if every frozen cell that an active cell draws is drawn inside the box it is frozen with,
then every active cell is drawn inside its box, and in the drawing of an active cell what an instance of an active cell
draws is inside the box of the instance, at each place where the cell of the instance is drawn. -/
theorem flatten_within_solveWith (hd : d.WellFormed) (h : d.solveWith root config optimizer = .ok (d', r))
    (hs : r.success)
    (hfrozen : ∀ c t b, d.Active root c → t ∈ d'.templates c → d'.frozenBox? t = some b → d'.DrawsWithin t b) :
    (∀ c, d.Active root c → ∃ b, d'.box? (.cell c) = some b ∧ d'.DrawsWithin c b) ∧
    ∀ c path dx dy k i, d.Active root c → d'.DrawnAt c path dx dy k → d.Active root k → .inst i ∈ d'.children k →
      d'.drawnBy d'.cells.size i dx dy path <:+: d'.flatten c ∧
      ∃ own, d'.box? (.inst i) = some own ∧
        ∀ s ∈ d'.drawnBy d'.cells.size i dx dy path, s.box.Within (own.translate dx dy) := by
  have hagree := agreeOutside_solveWith h
  have hd' := hagree.sameStructure.wellFormed hd
  have hsettled := settled_solveWith hd h hs
  have hfrozen' : ∀ c t b, d'.Active root c → t ∈ d'.templates c → d'.frozenBox? t = some b → d'.DrawsWithin t b :=
    fun c t b hc => hfrozen c t b (hagree.active.mpr hc)
  refine ⟨fun c hc => ?_, fun c path dx dy k i hc hdrawn hk hi => ⟨?_, ?_⟩⟩
  · obtain ⟨b, hb, -⟩ := hsettled.boxes.solved _ (cell_mem_solved_iff.mpr (hagree.active.mp hc))
    exact ⟨b, hb, hsettled.drawsWithin hd' hfrozen' (hagree.active.mp hc) hb⟩
  · exact (isInfix_drawnBy hi _ dx dy path).trans (hdrawn.isInfix_flatten hd')
  · have hk := hagree.active.mp hk
    obtain ⟨own, hown, -⟩ := hsettled.boxes.solved _ (hk.child_mem_solved hi)
    exact ⟨own, hown, fun s hs => hsettled.within_drawnBy hd' hfrozen' hk hi hown hs⟩

/-! ## An instance in a frozen cell -/

/-- A frozen block draws a unit in an instance that is smaller than the unit; a top cell draws the block. -/
def blockInTop : List (Operation Rat) :=
  [.addCell "unit", .addPolygon ⟨0⟩ "p" "met1", .setBox (.polygon ⟨0⟩) ⟨0, 0, 5, 5⟩,
    .addCell "block", .addPolygon ⟨1⟩ "frame" "met1", .setBox (.polygon ⟨1⟩) ⟨0, 0, 10, 10⟩,
    .addInstance ⟨1⟩ "j" ⟨0⟩, .setBox (.inst ⟨0⟩) ⟨0, 0, 1, 1⟩, .freeze ⟨1⟩,
    .addCell "top", .addInstance ⟨2⟩ "i" ⟨1⟩]

/-- The design of `blockInTop` after a solve. -/
def solvedBlockInTop : Design Rat :=
  ((empty.run blockInTop).writeBox (.cell ⟨2⟩) (some ⟨0, 0, 10, 10⟩)).writeBox (.inst ⟨1⟩) (some ⟨0, 0, 10, 10⟩)

theorem solveWith_blockInTop : (empty.run blockInTop).solveWith ⟨2⟩ .standard
    (fun _ => .solved #[0, 0, 10, 10, 0, 0, 10, 10]) =
      .ok (solvedBlockInTop, ⟨true, "", some .round, none, 100, 8⟩) := by
  decide +kernel

/-- The block draws inside the box that it is frozen with. -/
theorem drawsWithin_blockInTop (c t : CellId) (b : Box Rat) (hc : (empty.run blockInTop).Active ⟨2⟩ c)
    (ht : t ∈ solvedBlockInTop.templates c) (hb : solvedBlockInTop.frozenBox? t = some b) :
    solvedBlockInTop.DrawsWithin t b := by
  have hmem := mem_activeCells_iff.mpr hc
  rw [show (empty.run blockInTop).activeCells ⟨2⟩ = [⟨2⟩] by decide +kernel, List.mem_singleton] at hmem
  rw [hmem, show solvedBlockInTop.templates ⟨2⟩ = [⟨1⟩] by decide +kernel, List.mem_singleton] at ht
  rw [ht, show solvedBlockInTop.frozenBox? ⟨1⟩ = some ⟨0, 0, 10, 10⟩ by decide +kernel] at hb
  rw [ht, ← Option.some.inj hb]
  unfold DrawsWithin
  decide +kernel

theorem flatten_within_solveWith_blockInTop :
    (∀ c t b, (empty.run blockInTop).Active ⟨2⟩ c → t ∈ solvedBlockInTop.templates c →
      solvedBlockInTop.frozenBox? t = some b → solvedBlockInTop.DrawsWithin t b) ∧
    (empty.run blockInTop).solveWith ⟨2⟩ .standard (fun _ => .solved #[0, 0, 10, 10, 0, 0, 10, 10]) =
      .ok (solvedBlockInTop, ⟨true, "", some .round, none, 100, 8⟩) ∧
    (∃ b, solvedBlockInTop.box? (.cell ⟨2⟩) = some b ∧ solvedBlockInTop.DrawsWithin ⟨2⟩ b) ∧
    ∃ own, solvedBlockInTop.box? (.inst ⟨1⟩) = some own ∧
      ∀ s ∈ solvedBlockInTop.drawnBy 3 ⟨1⟩ 0 0 [], s.box.Within (own.translate 0 0) := by
  have hd : (empty.run blockInTop).WellFormed := Reachable.wellFormed ⟨blockInTop, rfl⟩
  have hactive : (empty.run blockInTop).Active ⟨2⟩ ⟨2⟩ := active_self (by decide +kernel)
  obtain ⟨hcells, hinstances⟩ := flatten_within_solveWith hd solveWith_blockInTop rfl drawsWithin_blockInTop
  exact ⟨drawsWithin_blockInTop, solveWith_blockInTop, hcells ⟨2⟩ hactive,
    (hinstances ⟨2⟩ [] 0 0 ⟨2⟩ ⟨1⟩ hactive .self hactive (by decide +kernel)).2⟩

/-- It is not so for all instances: one in a frozen cell can draw outside its box. -/
theorem not_flatten_within_solveWith : ¬ ∀ (d d' : Design Rat) (root : CellId) (config : SolveConfig Rat)
    (optimizer : ExternalOptimizer Rat) (r : SolveReport Rat), d.WellFormed →
    d.solveWith root config optimizer = .ok (d', r) → r.success →
    (∀ c t b, d.Active root c → t ∈ d'.templates c → d'.frozenBox? t = some b → d'.DrawsWithin t b) →
    (∀ c, d.Active root c → ∃ b, d'.box? (.cell c) = some b ∧ d'.DrawsWithin c b) ∧
    ∀ c path dx dy k i own, d.Active root c → d'.DrawnAt c path dx dy k → .inst i ∈ d'.children k →
      d'.box? (.inst i) = some own →
      ∀ s ∈ d'.drawnBy d'.cells.size i dx dy path, s.box.Within (own.translate dx dy) := by
  intro h
  have hactive : (empty.run blockInTop).Active ⟨2⟩ ⟨2⟩ := active_self (by decide +kernel)
  obtain ⟨-, hinstances⟩ := h _ _ ⟨2⟩ .standard _ _ (Reachable.wellFormed ⟨blockInTop, rfl⟩) solveWith_blockInTop rfl
    drawsWithin_blockInTop
  have hinst : solvedBlockInTop.instance? ⟨1⟩ = some ⟨"i", ⟨1⟩, some ⟨0, 0, 10, 10⟩, ⟨2⟩⟩ := by decide +kernel
  have hcontent : solvedBlockInTop.contentBox? ⟨1⟩ = some ⟨0, 0, 10, 10⟩ := by decide +kernel
  have hblock : solvedBlockInTop.DrawnAt ⟨2⟩ ["i"] (0 + 0 - 0) (0 + 0 - 0) ⟨1⟩ :=
    .inst .self (by decide +kernel) hinst rfl hcontent
  -- the unit is 5 wide, and the box of `j` is 1 wide
  have hwithin := hinstances ⟨2⟩ _ _ _ ⟨1⟩ ⟨0⟩ ⟨0, 0, 1, 1⟩ hactive hblock (by decide +kernel) (by decide +kernel)
    ⟨["i", "j", "p"], "met1", ⟨0, 0, 5, 5⟩⟩ (by decide +kernel)
  revert hwithin
  decide +kernel

end Design

end RectLayout
