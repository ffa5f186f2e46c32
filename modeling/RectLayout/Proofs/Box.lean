import Mathlib.Algebra.Order.Field.Rat
import Mathlib.Tactic.Linarith
import RectLayout.Box

/-!
# Boxes around boxes

The box around others is made of unions, so it has every property that unions keep (`tight_induction`): it is around
each of them (`within_tight`) and starts at their least coordinates (`isLeast_corner_of_tight`), and as a union of boxes
that are on the grid and not empty (`Box.Snapped`) is one too, so is it. Such a box has at most the area of a box around
it, and the same area only if it is that box (`Within.area_le`, `Within.eq_of_area_eq`).
-/

namespace RectLayout

/-! ## Whole numbers -/

/-- A whole number. -/
def IsWhole (x : Rat) : Prop := ∃ n : Int, x = n

namespace IsWhole

variable {x y : Rat}

theorem intCast (n : Int) : IsWhole n := ⟨n, rfl⟩

theorem add (hx : IsWhole x) (hy : IsWhole y) : IsWhole (x + y) := by
  obtain ⟨m, rfl⟩ := hx
  obtain ⟨n, rfl⟩ := hy
  exact ⟨m + n, (Int.cast_add m n).symm⟩

theorem sub (hx : IsWhole x) (hy : IsWhole y) : IsWhole (x - y) := by
  obtain ⟨m, rfl⟩ := hx
  obtain ⟨n, rfl⟩ := hy
  exact ⟨m - n, (Int.cast_sub m n).symm⟩

theorem ite {p : Prop} [Decidable p] (hx : IsWhole x) (hy : IsWhole y) : IsWhole (if p then x else y) := by
  split
  · exact hx
  · exact hy

/-- The next whole number is at least one above. -/
theorem add_one_le (hx : IsWhole x) (hy : IsWhole y) (h : x < y) : x + 1 ≤ y := by
  obtain ⟨m, rfl⟩ := hx
  obtain ⟨n, rfl⟩ := hy
  have hmn : m < n := by exact_mod_cast h
  exact_mod_cast hmn

/-- A whole number that is above another one by less than one is not above it. -/
theorem le_of_le_add (hx : IsWhole x) (hy : IsWhole y) {t : Rat} (h : x ≤ y + t) (ht : t < 1) : x ≤ y := by
  by_contra hlt
  linarith [hy.add_one_le hx (not_le.mp hlt)]

theorem eq_zero_of_abs_lt (hx : IsWhole x) (h : |x| < 1) : x = 0 := by
  obtain ⟨n, rfl⟩ := hx
  have hn : |n| < 1 := by exact_mod_cast h
  rw [Int.abs_lt_one_iff.mp hn, Int.cast_zero]

end IsWhole

namespace Box

/-! ## The box around others -/

section

variable {α : Type} [Scalar α]

/-- What boxes have and unions keep, the box around them has. -/
theorem tight_induction {P : Box α → Prop} (hunion : ∀ a b, P a → P b → P (a.union b)) {l : List (Box α)}
    (hl : ∀ a ∈ l, P a) {b : Box α} (hb : tight? l = some b) : P b := by
  have hfold : ∀ (l : List (Box α)) (a : Box α), P a → (∀ a ∈ l, P a) → P (l.foldl union a) := by
    intro l
    induction l with
    | nil => exact fun a ha _ => ha
    | cons c l ih =>
      intro a ha hl
      have hac := hunion a c ha (hl c List.mem_cons_self)
      exact ih (a.union c) hac fun a' ha' => hl a' (List.mem_cons_of_mem c ha')
  cases l with
  | nil => cases hb
  | cons a l =>
    rw [← Option.some.inj hb]
    exact hfold l a (hl a List.mem_cons_self) fun a' ha' => hl a' (List.mem_cons_of_mem a ha')

theorem exists_tight {l : List (Box α)} (h : l ≠ []) : ∃ b, tight? l = some b := by
  cases l with
  | nil => exact absurd rfl h
  | cons a l => exact ⟨_, rfl⟩

theorem isSome_tight_iff {l : List (Box α)} : (tight? l).isSome ↔ l ≠ [] := by
  cases l <;> simp [tight?]

end

/-- No coordinate of `a` is outside those of `b`. -/
structure Within (a b : Box Rat) : Prop where
  left : b.x1 ≤ a.x1
  bottom : b.y1 ≤ a.y1
  right : a.x2 ≤ b.x2
  top : a.y2 ≤ b.y2

variable {a b c : Box Rat}

namespace Within

instance (a b : Box Rat) : Decidable (a.Within b) :=
  decidable_of_iff (b.x1 ≤ a.x1 ∧ b.y1 ≤ a.y1 ∧ a.x2 ≤ b.x2 ∧ a.y2 ≤ b.y2)
    ⟨fun h => ⟨h.1, h.2.1, h.2.2.1, h.2.2.2⟩, fun h => ⟨h.left, h.bottom, h.right, h.top⟩⟩

theorem refl (a : Box Rat) : a.Within a := ⟨le_refl _, le_refl _, le_refl _, le_refl _⟩

theorem trans (h : a.Within b) (h' : b.Within c) : a.Within c :=
  ⟨h'.left.trans h.left, h'.bottom.trans h.bottom, h.right.trans h'.right, h.top.trans h'.top⟩

theorem translate (h : a.Within b) (dx dy : Rat) : (a.translate dx dy).Within (b.translate dx dy) :=
  ⟨add_le_add_left h.left dx, add_le_add_left h.bottom dy, add_le_add_left h.right dx, add_le_add_left h.top dy⟩

end Within

theorem min_eq (x y : Rat) : Scalar.scalarRat.min x y = min x y := by
  rw [min_def]

theorem max_eq (x y : Rat) : Scalar.scalarRat.max x y = max x y := by
  rw [max_def]

theorem within_union_left (a b : Box Rat) : a.Within (a.union b) :=
  ⟨(min_eq _ _).trans_le (min_le_left _ _), (min_eq _ _).trans_le (min_le_left _ _),
    (le_max_left _ _).trans_eq (max_eq _ _).symm, (le_max_left _ _).trans_eq (max_eq _ _).symm⟩

theorem within_union_right (a b : Box Rat) : b.Within (a.union b) :=
  ⟨(min_eq _ _).trans_le (min_le_right _ _), (min_eq _ _).trans_le (min_le_right _ _),
    (le_max_right _ _).trans_eq (max_eq _ _).symm, (le_max_right _ _).trans_eq (max_eq _ _).symm⟩

/-- What is around two boxes is around the least box around them. -/
theorem Within.union (ha : a.Within c) (hb : b.Within c) : (a.union b).Within c :=
  ⟨(le_min ha.left hb.left).trans_eq (min_eq _ _).symm, (le_min ha.bottom hb.bottom).trans_eq (min_eq _ _).symm,
    (max_eq _ _).trans_le (max_le ha.right hb.right), (max_eq _ _).trans_le (max_le ha.top hb.top)⟩

/-- The box around others is around each of them. -/
theorem within_tight {l : List (Box Rat)} (ha : a ∈ l) (hb : tight? l = some b) : a.Within b := by
  have hfold : ∀ (l : List (Box Rat)) (e : Box Rat), a.Within e ∨ a ∈ l → a.Within (l.foldl union e) := by
    intro l
    induction l with
    | nil => exact fun e h => h.resolve_right List.not_mem_nil
    | cons f l ih =>
      intro e h
      refine ih (e.union f) ?_
      rcases h with h | h
      · exact .inl (h.trans (within_union_left e f))
      · rcases List.mem_cons.mp h with rfl | h
        · exact .inl (within_union_right e a)
        · exact .inr h
  cases l with
  | nil => cases hb
  | cons e l =>
    rw [← Option.some.inj hb]
    refine hfold l e ?_
    rcases List.mem_cons.mp ha with rfl | h
    · exact .inl (.refl a)
    · exact .inr h

/-- Properties of the corners of boxes hold of the corner of the box around them. -/
theorem forall_corner_of_tight {Q R : Rat → Prop} {l : List (Box Rat)} (hb : tight? l = some b)
    (h : ∀ a ∈ l, Q a.x1 ∧ R a.y1) : Q b.x1 ∧ R b.y1 := by
  have hmin : ∀ {P : Rat → Prop} {x y : Rat}, P x → P y → P (if x ≤ y then x else y) := by
    intro P x y hx hy
    split
    · exact hx
    · exact hy
  exact tight_induction (P := fun b => Q b.x1 ∧ R b.y1) (fun a b ha hb => ⟨hmin ha.1 hb.1, hmin ha.2 hb.2⟩) h hb

/-- The box around others starts at the least of their lower left corners' coordinates. -/
theorem isLeast_corner_of_tight {l : List (Box Rat)} (hb : tight? l = some b) :
    IsLeast {x | x ∈ l.map Box.x1} b.x1 ∧ IsLeast {y | y ∈ l.map Box.y1} b.y1 := by
  obtain ⟨hx, hy⟩ := forall_corner_of_tight (Q := (· ∈ l.map Box.x1)) (R := (· ∈ l.map Box.y1)) hb
    fun a ha => ⟨List.mem_map_of_mem ha, List.mem_map_of_mem ha⟩
  refine ⟨⟨hx, ?_⟩, hy, ?_⟩
  · rintro x hx
    obtain ⟨a, ha, rfl⟩ := List.mem_map.mp hx
    exact (within_tight ha hb).left
  · rintro y hy
    obtain ⟨a, ha, rfl⟩ := List.mem_map.mp hy
    exact (within_tight ha hb).bottom

/-! ## Moved boxes -/

theorem translate_zero (b : Box Rat) : b.translate 0 0 = b := by
  simp [translate]

theorem translate_translate (b : Box Rat) (dx dy dx' dy' : Rat) :
    (b.translate dx dy).translate dx' dy' = b.translate (dx + dx') (dy + dy') := by
  simp only [translate, add_assoc]

/-! ## The grid -/

/-- All coordinates are whole numbers. -/
structure OnGrid (b : Box Rat) : Prop where
  x1 : IsWhole b.x1
  y1 : IsWhole b.y1
  x2 : IsWhole b.x2
  y2 : IsWhole b.y2

/-- A box on the grid that is not empty. -/
structure Snapped (b : Box Rat) : Prop where
  onGrid : b.OnGrid
  wide : b.x1 + 1 ≤ b.x2
  high : b.y1 + 1 ≤ b.y2

theorem OnGrid.union (ha : a.OnGrid) (hb : b.OnGrid) : (a.union b).OnGrid :=
  ⟨ha.x1.ite hb.x1, ha.y1.ite hb.y1, hb.x2.ite ha.x2, hb.y2.ite ha.y2⟩

theorem Snapped.union (ha : a.Snapped) (hb : b.Snapped) : (a.union b).Snapped := by
  have h := within_union_left a b
  have hwide := ha.wide
  have hhigh := ha.high
  refine ⟨ha.onGrid.union hb.onGrid, ?_, ?_⟩
  · linarith [h.left, h.right]
  · linarith [h.bottom, h.top]

theorem width_movedTo (b : Box Rat) (x y : Rat) : (b.movedTo x y).width = b.width := add_sub_cancel_left x b.width

theorem height_movedTo (b : Box Rat) (x y : Rat) : (b.movedTo x y).height = b.height := add_sub_cancel_left y b.height

/-- The box keeps its size when it is moved to a point of the grid. -/
theorem Snapped.movedTo (h : a.Snapped) {x y : Rat} (hx : IsWhole x) (hy : IsWhole y) : (a.movedTo x y).Snapped := by
  obtain ⟨⟨hx1, hy1, hx2, hy2⟩, hwide, hhigh⟩ := h
  refine ⟨⟨hx, hy, hx.add (hx2.sub hx1), hy.add (hy2.sub hy1)⟩, ?_, ?_⟩
  · show x + 1 ≤ x + (a.x2 - a.x1)
    linarith
  · show y + 1 ≤ y + (a.y2 - a.y1)
    linarith

/-! ## Sizes -/

theorem Within.width_le (h : a.Within b) : a.width ≤ b.width := sub_le_sub h.right h.left

theorem Within.height_le (h : a.Within b) : a.height ≤ b.height := sub_le_sub h.top h.bottom

/-- Content that is not larger than a box stays in it when it is moved to its corner. -/
theorem within_of_movedTo (hwidth : a.width ≤ b.width) (hheight : a.height ≤ b.height) :
    (a.movedTo b.x1 b.y1).Within b := by
  refine ⟨le_refl _, le_refl _, ?_, ?_⟩
  · exact (add_le_add_right hwidth b.x1).trans_eq (add_sub_cancel b.x1 b.x2)
  · exact (add_le_add_right hheight b.y1).trans_eq (add_sub_cancel b.y1 b.y2)

theorem movedTo_eq (hwidth : a.width = b.width) (hheight : a.height = b.height) : a.movedTo b.x1 b.y1 = b := by
  rw [movedTo, hwidth, hheight]
  simp [width, height]

theorem Snapped.width_pos (h : a.Snapped) : 0 < a.width := by
  have hwide := h.wide
  show 0 < a.x2 - a.x1
  linarith

theorem Snapped.height_pos (h : a.Snapped) : 0 < a.height := by
  have hhigh := h.high
  show 0 < a.y2 - a.y1
  linarith

/-- A box that is not empty has at most the area of a box around it. -/
theorem Within.area_le (h : a.Within b) (ha : a.Snapped) : a.area ≤ b.area :=
  mul_le_mul h.width_le h.height_le ha.height_pos.le (ha.width_pos.le.trans h.width_le)

/-- A box that is not empty has the area of a box around it only if it is that box. -/
theorem Within.eq_of_area_eq (h : a.Within b) (ha : a.Snapped) (harea : a.area = b.area) : a = b := by
  have hwidth : a.width = b.width := by
    refine h.width_le.antisymm (not_lt.mp fun hlt => ?_)
    exact (mul_lt_mul hlt h.height_le ha.height_pos (ha.width_pos.le.trans h.width_le)).ne harea
  have hheight : a.height = b.height := by
    refine h.height_le.antisymm (not_lt.mp fun hlt => ?_)
    exact (mul_lt_mul' h.width_le hlt ha.height_pos.le (ha.width_pos.trans_le h.width_le)).ne harea
  simp only [width, height] at hwidth hheight
  obtain ⟨a1, a2, a3, a4⟩ := a
  obtain ⟨hleft, hbottom, hright, htop⟩ := h
  obtain ⟨b1, b2, b3, b4⟩ := b
  simp only at hwidth hheight hleft hbottom hright htop
  congr 1 <;> linarith

end Box

end RectLayout
