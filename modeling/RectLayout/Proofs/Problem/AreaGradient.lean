import Mathlib.Algebra.BigOperators.Ring.Finset
import RectLayout.Proofs.Problem.NormalForm
import RectLayout.Proofs.Problem.Row

/-!
# The derivative of the area

The area of a box is the product of two extents, each of which is linear in the corners. So the area at a displaced
point is that at the point, the change to first order (`differential`), and the area of the displacement itself
(`Box.area_boxAt_displace`), with nothing left over.

`areaGradient` makes four changes for each box, and boxes may share entries. What matters of it is its product with a
direction, to which one change adds its amount times the direction there (`dot_modify_add`). So one box adds its
differential (`dot_addPull`), and all boxes the sum of theirs, whichever entries they share (`dot_areaGradient`). This
gives the expansion of the area (`area_expansion`), and the gradient is the only vector with which it is true
(`areaGradient_unique`).
-/

namespace RectLayout

variable {boxes : List Nat} {x d g g' : Array Rat} {b i : Nat}

/-! ## Displacements -/

/-- A point displaced in a direction, place by place. -/
def displace (x d : Array Rat) : Array Rat := Array.zipWith (· + ·) x d

/-- The product of a vector and a direction: the sum over the places of the direction. -/
def dot (g d : Array Rat) : Rat := ∑ i ∈ Finset.range d.size, valueAt g i * valueAt d i

theorem size_displace (hd : d.size = x.size) : (displace x d).size = x.size := by
  rw [displace, Array.size_zipWith, hd, min_self]

theorem valueAt_displace (hd : d.size = x.size) (i : Nat) : valueAt (displace x d) i = valueAt x i + valueAt d i := by
  rcases Nat.lt_or_ge i x.size with hi | hi
  · have hsum : (displace x d)[i]? = some (valueAt (displace x d) i) :=
      getElem?_eq_some_valueAt (hi.trans_eq (size_displace hd).symm)
    rw [displace, Array.getElem?_zipWith, getElem?_eq_some_valueAt hi, getElem?_eq_some_valueAt (hd ▸ hi)] at hsum
    exact (Option.some.inj hsum).symm
  · rw [valueAt_of_size_le hi, valueAt_of_size_le (hd.trans_le hi), valueAt_of_size_le ((size_displace hd).trans_le hi),
      add_zero]

/-- A change of one entry adds to that entry only. -/
theorem valueAt_modify_add (hi : i < g.size) (c : Rat) (j : Nat) :
    valueAt (g.modify i (· + c)) j = valueAt g j + if i = j then c else 0 := by
  rw [valueAt_modify]
  by_cases hij : i = j
  · subst hij
    rw [if_pos ⟨rfl, hi⟩, if_pos rfl]
  · rw [if_neg fun h => hij h.1, if_neg hij, add_zero]

/-- So it adds to a product with a direction the change times the direction's value at that place. -/
theorem dot_modify_add (hi : i < g.size) (c : Rat) (d : Array Rat) :
    dot (g.modify i (· + c)) d = dot g d + c * valueAt d i := by
  simp only [dot, valueAt_modify_add hi, add_mul, Finset.sum_add_distrib, ite_mul, zero_mul, Finset.sum_ite_eq,
    Finset.mem_range]
  split
  · rfl
  · rename_i hid
    rw [valueAt_of_size_le (not_lt.mp hid), mul_zero]

theorem dot_modify_sub (hi : i < g.size) (c : Rat) (d : Array Rat) :
    dot (g.modify i (· - c)) d = dot g d - c * valueAt d i := by
  simp only [sub_eq_add_neg]
  rw [dot_modify_add hi, neg_mul]

theorem dot_replicate_zero (n : Nat) (d : Array Rat) : dot (Array.replicate n 0) d = 0 := by
  refine Finset.sum_eq_zero fun i _ => ?_
  rcases Nat.lt_or_ge i n with hi | hi
  · simp [valueAt, hi]
  · rw [valueAt_of_size_le (by rwa [Array.size_replicate]), zero_mul]

/-! ## One box -/

/-- The change of the area of a box to first order: each extent times the change of the other one. -/
def differential (x d : Array Rat) (b : Nat) : Rat :=
  (boxAt x b).height * (boxAt d b).width + (boxAt x b).width * (boxAt d b).height

/-- The area of a box at a displaced point. -/
theorem Box.area_boxAt_displace (hd : d.size = x.size) (b : Nat) :
    (boxAt (displace x d) b).area = (boxAt x b).area + differential x d b + (boxAt d b).area := by
  simp only [differential, area, width, height, boxAt, valueAt_displace hd]
  ring

/-- The partial derivatives of the area of one box, added to those of others. -/
def addPull (x g : Array Rat) (b : Nat) : Array Rat :=
  (((g.modify b (· - (boxAt x b).height)).modify (b + 2) (· + (boxAt x b).height)).modify (b + 1)
    (· - (boxAt x b).width)).modify (b + 3) (· + (boxAt x b).width)

theorem size_addPull (x g : Array Rat) (b : Nat) : (addPull x g b).size = g.size := by
  simp only [addPull, Array.size_modify]

/-- What one box adds to a product is its differential. -/
theorem dot_addPull (x d : Array Rat) (hb : b + 3 < g.size) : dot (addPull x g b) d = dot g d + differential x d b := by
  rw [addPull, dot_modify_add (by simp only [Array.size_modify]; omega),
    dot_modify_sub (by simp only [Array.size_modify]; omega), dot_modify_add (by simp only [Array.size_modify]; omega),
    dot_modify_sub (by omega)]
  simp only [differential, Box.width, Box.height, boxAt]
  ring

/-! ## All boxes -/

theorem areaGradient_eq_foldl (boxes : List Nat) (x : Array Rat) :
    areaGradient boxes x = boxes.foldl (addPull x) (Array.replicate x.size 0) := rfl

theorem size_foldl_addPull (boxes : List Nat) (x g : Array Rat) : (boxes.foldl (addPull x) g).size = g.size := by
  induction boxes generalizing g with
  | nil => rfl
  | cons b boxes ih => rw [List.foldl_cons, ih, size_addPull]

theorem size_areaGradient (boxes : List Nat) (x : Array Rat) : (areaGradient boxes x).size = x.size := by
  rw [areaGradient_eq_foldl, size_foldl_addPull, Array.size_replicate]

/-- What several boxes add to a product is the sum of their differentials, also where they share corners. -/
theorem dot_foldl_addPull (x d : Array Rat) (hboxes : ∀ b ∈ boxes, b + 3 < g.size) :
    dot (boxes.foldl (addPull x) g) d = dot g d + (boxes.map (differential x d)).sum := by
  induction boxes generalizing g with
  | nil => rw [List.foldl_nil, List.map_nil, List.sum_nil, add_zero]
  | cons b boxes ih =>
    obtain ⟨hb, hboxes⟩ := List.forall_mem_cons.mp hboxes
    rw [List.foldl_cons, ih (by rwa [size_addPull]), dot_addPull x d hb, List.map_cons, List.sum_cons, add_assoc]

theorem dot_areaGradient (d : Array Rat) (hboxes : ∀ b ∈ boxes, b + 3 < x.size) :
    dot (areaGradient boxes x) d = (boxes.map (differential x d)).sum := by
  rw [areaGradient_eq_foldl, dot_foldl_addPull x d (by rwa [Array.size_replicate]), dot_replicate_zero, zero_add]

/-- The area at a displaced point, box by box. -/
theorem area_displace (boxes : List Nat) (hd : d.size = x.size) :
    area boxes (displace x d) = area boxes x + (boxes.map (differential x d)).sum + area boxes d := by
  simp only [area, Scalar.sum_eq_list_sum, Box.area_boxAt_displace hd, List.sum_map_add]

/-- At points that have values for all the boxes, the area and its gradient exist, and the area at a displaced point is
the area at the point, the product of the gradient and the displacement, and the area of the displacement. -/
theorem area_expansion (boxes : List Nat) (x d : Array Rat) (hd : d.size = x.size)
    (hboxes : ∀ b ∈ boxes, b + 3 < x.size) :
    area? boxes x = some (area boxes x) ∧ area? boxes d = some (area boxes d) ∧
    area? boxes (displace x d) = some (area boxes (displace x d)) ∧
    areaGradient? boxes x = some (areaGradient boxes x) ∧ (areaGradient boxes x).size = x.size ∧
    area boxes (displace x d) = area boxes x + dot (areaGradient boxes x) d + area boxes d := by
  refine ⟨area?_eq_some hboxes, area?_eq_some (hd ▸ hboxes), area?_eq_some (size_displace hd ▸ hboxes),
    areaGradient?_eq_some hboxes, size_areaGradient boxes x, ?_⟩
  rw [area_displace boxes hd, dot_areaGradient d hboxes]

/-- The corners of two boxes, the upper right corner of the one being the lower left corner of the other. -/
def touching : Array Rat := #[0, 1, 4, 3, 9, 5]

/-- A displacement of `touching`. -/
def touchingMoved : Array Rat := #[1, -1, 2, 0, 1 / 2, 3]

/-- The first box counts twice, and both pull at the corner that they share. -/
theorem area_expansion_touching : touchingMoved.size = touching.size ∧ (∀ b ∈ [0, 2, 0], b + 3 < touching.size) ∧
    areaGradient? [0, 2, 0] touching = some #[-4, -8, 2, 3, 2, 5] ∧
    area? [0, 2, 0] (displace touching touchingMoved) = some (26 + 24 + -5 / 2) := by
  have hsize : touchingMoved.size = touching.size := rfl
  have hboxes : ∀ b ∈ [0, 2, 0], b + 3 < touching.size := by decide
  obtain ⟨-, -, harea, hgradient, -, hexpansion⟩ := area_expansion [0, 2, 0] touching touchingMoved hsize hboxes
  have hvector : areaGradient [0, 2, 0] touching = #[-4, -8, 2, 3, 2, 5] := by decide +kernel
  have hbefore : area [0, 2, 0] touching = 26 := by decide +kernel
  have hproduct : dot #[-4, -8, 2, 3, 2, 5] touchingMoved = 24 := by decide +kernel
  have hrest : area [0, 2, 0] touchingMoved = -5 / 2 := by decide +kernel
  rw [hvector] at hgradient hexpansion
  rw [hbefore, hproduct, hrest] at hexpansion
  exact ⟨hsize, hboxes, hgradient, by rw [harea, hexpansion]⟩

/-! ## No other gradient -/

/-- The direction that displaces one entry by one. -/
def unitAt (n i : Nat) : Array Rat := (Array.replicate n 0).modify i (· + 1)

theorem dot_comm (h : g.size = d.size) : dot g d = dot d g := by
  simp only [dot, h, mul_comm]

theorem size_unitAt (n i : Nat) : (unitAt n i).size = n := by
  rw [unitAt, Array.size_modify, Array.size_replicate]

theorem dot_unitAt (hi : i < g.size) : dot g (unitAt g.size i) = valueAt g i := by
  rw [dot_comm (size_unitAt _ _).symm, unitAt, dot_modify_add (by rwa [Array.size_replicate]), dot_replicate_zero,
    zero_add, one_mul]

/-- A vector is determined by its products with all directions. -/
theorem eq_of_dot_eq (hsize : g.size = g'.size) (h : ∀ d : Array Rat, d.size = g.size → dot g d = dot g' d) :
    g = g' := by
  refine Array.ext_getElem? fun i => ?_
  rcases Nat.lt_or_ge i g.size with hi | hi
  · have hunit := h _ (size_unitAt g.size i)
    rw [dot_unitAt hi, hsize, dot_unitAt (hsize ▸ hi)] at hunit
    rw [getElem?_eq_some_valueAt hi, getElem?_eq_some_valueAt (hsize ▸ hi), hunit]
  · rw [Array.getElem?_eq_none hi, Array.getElem?_eq_none (hsize ▸ hi)]

/-- With no other vector is the area at every displaced point the area at the point, the product of the vector and the
displacement, and the area of the displacement. -/
theorem areaGradient_unique (hboxes : ∀ b ∈ boxes, b + 3 < x.size) (hg : g.size = x.size)
    (h : ∀ d : Array Rat, d.size = x.size → area boxes (displace x d) = area boxes x + dot g d + area boxes d) :
    g = areaGradient boxes x := by
  refine eq_of_dot_eq (hg.trans (size_areaGradient boxes x).symm) fun d hd => ?_
  have hexpansion := h d (hd.trans hg)
  rw [area_displace boxes (hd.trans hg)] at hexpansion
  rw [dot_areaGradient d hboxes]
  exact (add_left_cancel (add_right_cancel hexpansion)).symm

end RectLayout
