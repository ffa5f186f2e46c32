import RectLayout.Proofs.LinearProgram.Tableau

/-!
# Lowering a function

A pivot of a descent lets the first column that lowers a function enter and the row that bounds its growth leave, and
the descent ends where there is no such column, or no such row, or no pivot left to make (`Descends`,
`descentEnds_descend`).

What is lowered for a demand is a variable with a row of its own that must not be negative (`Descending`). Its row bounds
whatever lowers it, so that there always is a row that leaves, and the pivot keeps the points and the bounds
(`Descending.pivot`). Hence the descent ends with a function that nothing lowers, unless it makes all the pivots that it
may make (`Descending.descend`), and such a function is nowhere less than at the tableau's point
(`Descending.constant_le`).
-/

namespace RectLayout.LinearProgram

namespace Tableau

section

variable {α : Type} [Scalar α] {fuel : Nat} {t t' : Tableau α} {z z' : Combination α}

/-- The first cell through which a function falls when the column grows. -/
def lowering? (z : Combination α) : Option (Column × α) := z.cells.find? fun (v, c) => v.role ≠ .mark ∧ c < 0

/-- Some pivots that lower a function. -/
inductive Descends : Nat → Tableau α → Combination α → Tableau α → Combination α → Prop
  | refl (t : Tableau α) (z : Combination α) : Descends 0 t z t z
  | step {k : Nat} {enter leave : Column} {c : α} {f : Combination α} {t t' : Tableau α} {z z' : Combination α}
      (hlowering : lowering? z = some (enter, c)) (hleaving : t.leaving? enter = some (leave, f))
      (hrest : Descends k (t.exchange enter leave f) (z.substitute enter (solved enter leave f)) t' z') :
      Descends (k + 1) t z t' z'

/-- A descent of at most `fuel` pivots ends where nothing lowers the function, or where no row bounds the growth of a
column that lowers it, or after the last pivot. -/
inductive DescentEnds (fuel : Nat) (t : Tableau α) (z : Combination α) :
    Except Refusal (Tableau α × Combination α) → Prop
  | least {k : Nat} {t' : Tableau α} {z' : Combination α} (hlt : k < fuel) (hdescends : Descends k t z t' z')
      (hlowering : lowering? z' = none) : DescentEnds fuel t z (.ok (t', z'))
  | unbounded {k : Nat} {t' : Tableau α} {z' : Combination α} {enter : Column} {c : α} (hlt : k < fuel)
      (hdescends : Descends k t z t' z') (hlowering : lowering? z' = some (enter, c))
      (hleaving : t'.leaving? enter = none) : DescentEnds fuel t z (.error .unbounded)
  | exhausted {t' : Tableau α} {z' : Combination α} (hdescends : Descends fuel t z t' z') :
      DescentEnds fuel t z (.ok (t', z'))

theorem DescentEnds.step {enter leave : Column} {c : α} {f : Combination α} (hlowering : lowering? z = some (enter, c))
    (hleaving : t.leaving? enter = some (leave, f)) {result : Except Refusal (Tableau α × Combination α)}
    (h : DescentEnds fuel (t.exchange enter leave f) (z.substitute enter (solved enter leave f)) result) :
    DescentEnds (fuel + 1) t z result := by
  cases h with
  | least hlt hdescends hnone => exact .least (Nat.succ_lt_succ hlt) (.step hlowering hleaving hdescends) hnone
  | unbounded hlt hdescends hsome hnone =>
    exact .unbounded (Nat.succ_lt_succ hlt) (.step hlowering hleaving hdescends) hsome hnone
  | exhausted hdescends => exact .exhausted (.step hlowering hleaving hdescends)

theorem descentEnds_descend (fuel : Nat) (t : Tableau α) (z : Combination α) :
    DescentEnds fuel t z (descend fuel t z) := by
  fun_induction descend fuel t z with
  | case1 t z => exact .exhausted (.refl t z)
  | case2 fuel t z hlowering => exact .least (Nat.succ_pos fuel) (.refl t z) hlowering
  | case3 fuel t z enter c hlowering hleaving => exact .unbounded (Nat.succ_pos fuel) (.refl t z) hlowering hleaving
  | case4 fuel t z enter c hlowering leave f hleaving ih => exact ih.step hlowering hleaving

/-- Nothing lowers a constant. -/
theorem descend_const (fuel : Nat) (t : Tableau α) (c : α) : descend fuel t (.const c) = .ok (t, .const c) := by
  cases fuel <;> rfl

end

end Tableau

open Tableau

variable {t t' : Tableau Rat} {z z' : Combination Rat} {d : Dictionary} {k m v w : Nat} {e : Form} {enter : Column}
  {c : Rat}

/-- The cell through which a form falls belongs to a variable that is not held at zero. -/
theorem exists_of_lowering? (he : e.IsNormal m) (h : lowering? (d.combination e) = some (enter, c)) :
    ∃ v, enter = d.column v ∧ d.bound v ≠ .zero ∧ e.coefficient v = c ∧ c < 0 := by
  obtain ⟨v, heq, -, hcell⟩ := Dictionary.exists_of_find?_cells he h
  obtain ⟨rfl, rfl⟩ := Prod.mk.inj heq
  simp only [decide_eq_true_eq, Ne, Dictionary.role_column_eq_mark_iff] at hcell
  exact ⟨v, rfl, hcell.1, rfl, hcell.2⟩

theorem nonneg_of_lowering?_eq_none (he : e.IsNormal m) (h : lowering? (d.combination e) = none)
    (hv : d.bound v ≠ .zero) : 0 ≤ e.coefficient v := by
  by_contra hneg
  have hnot := Dictionary.not_of_find?_cells he h (not_le.mp hneg).ne
  simp only [decide_eq_true_eq, not_and, Ne, Dictionary.role_column_eq_mark_iff] at hnot
  exact hnot hv (not_le.mp hneg)

/-- A descent of what the variable `w` is: the tableau shows a dictionary with its values within the bounds. -/
structure Descending (w m : Nat) (t : Tableau Rat) (z : Combination Rat) (d : Dictionary) : Prop where
  shows : Shows t d
  solved : d.Solved m
  within : d.Within
  lt : w < m
  bound : d.bound w = .nonNegative
  eq : z = d.combination (d.formOf w)

/-- What a pivot of a descent keeps. There always is one, since the row of `w` itself bounds what lowers it. -/
theorem Descending.pivot (h : Descending w m t z d) (hlowering : lowering? z = some (enter, c)) :
    ∃ leave f, t.leaving? enter = some (leave, f) ∧ ∃ d', d.Alike d' ∧
      Descending w m (t.exchange enter leave f) (z.substitute enter (Tableau.solved enter leave f)) d' := by
  have hreduced := h.solved.reduced_formOf h.lt
  obtain ⟨v, rfl, hzero, hc, hneg⟩ := exists_of_lowering? hreduced.normal (h.eq ▸ hlowering)
  have hne : (d.formOf w).coefficient v ≠ 0 := hc.symm ▸ hneg.ne
  have hbound : d.bound v = .nonNegative :=
    ((h.within.confined_formOf h.bound).nonNegative_or_zero hreduced.normal
      ((Form.mem_terms_iff hreduced.normal).mpr ⟨rfl, hne⟩)).resolve_right hzero
  have hleaving := h.shows.leaving?_eq h.solved (fun r hr => (h.within r hr).not_zero) hzero
  cases hd : d.leaving? v with
  | none =>
    have hnot := Dictionary.leaving?_eq_none hd
    cases hlookup : d.rows.lookup w with
    | none =>
      rw [Dictionary.formOf, hlookup, Option.getD_none, Form.coefficient_single] at hc
      split at hc <;> linarith
    | some g =>
      rw [Dictionary.formOf, hlookup, Option.getD_some] at hc
      exact absurd ⟨h.bound, hc.trans_lt hneg⟩ (hnot _ (mem_of_lookup hlookup))
  | some best =>
    obtain ⟨u, f, growth⟩ := best
    rw [hd] at hleaving
    obtain ⟨hmem, hfalls, -, -⟩ := Dictionary.leaving?_eq_some hd
    have hf := hfalls.2.ne
    have hfnormal := (h.solved.reduced _ hmem).normal
    have hvu := (h.solved.ne_of_coefficient_ne_zero hmem hf _ hmem).symm
    refine ⟨_, _, hleaving, d.exchange v u f, ⟨rfl, fun y => Dictionary.holds_exchange_iff h.solved hmem hf⟩,
      h.shows.exchange h.solved hmem hf hzero, h.solved.exchange hmem hf,
      h.solved.within_exchange_of_leaving? h.within hbound hd, h.lt, h.bound, ?_⟩
    rw [h.solved.formOf_exchange hmem hf h.lt, h.eq, Dictionary.solved_combination hfnormal (h.solved.lt _ hmem) hvu hf]
    exact Dictionary.substitute_combination hreduced.normal (hfnormal.solveFor (h.solved.lt _ hmem) v) v

/-- What any number of them keeps. -/
theorem Tableau.Descends.descending (hdescends : Descends k t z t' z') (h : Descending w m t z d) :
    ∃ d', d.Alike d' ∧ Descending w m t' z' d' := by
  induction hdescends generalizing d with
  | refl t z => exact ⟨d, .refl d, h⟩
  | step hlowering hleaving _ ih =>
    obtain ⟨leave, f, hleaving', d', halike, hnext⟩ := h.pivot hlowering
    obtain ⟨rfl, rfl⟩ := Prod.mk.inj (Option.some.inj (hleaving.symm.trans hleaving'))
    obtain ⟨d'', halike', hend⟩ := ih hnext
    exact ⟨d'', halike.trans halike', hend⟩

/-- A descent ends at a tableau, where nothing lowers the function unless it has made all its pivots. -/
theorem Descending.descend (h : Descending w m t z d) : ∃ t' z' d', Tableau.descend k t z = .ok (t', z') ∧
    d.Alike d' ∧ Descending w m t' z' d' ∧ (lowering? z' = none ∨ Descends k t z t' z') := by
  have hends := descentEnds_descend k t z
  generalize Tableau.descend k t z = result at hends ⊢
  cases hends with
  | least hlt hdescends hlowering =>
    obtain ⟨d', halike, hend⟩ := hdescends.descending h
    exact ⟨_, _, d', rfl, halike, hend, .inl hlowering⟩
  | unbounded hlt hdescends hlowering hleaving =>
    obtain ⟨d', -, hend⟩ := hdescends.descending h
    obtain ⟨leave, f, hleaving', -⟩ := hend.pivot hlowering
    cases hleaving.symm.trans hleaving'
  | exhausted hdescends =>
    obtain ⟨d', halike, hend⟩ := hdescends.descending h
    exact ⟨_, _, d', rfl, halike, hend, .inr hdescends⟩

/-- Where nothing lowers it, the function has its least value at the tableau's point. -/
theorem Descending.constant_le (h : Descending w m t z d) (hlowering : lowering? z = none) {y : Nat → Rat}
    (hy : d.Admits y) : z.constant ≤ y w := by
  have hreduced := h.solved.reduced_formOf h.lt
  rw [h.eq] at hlowering ⊢
  have hterms : ∀ t ∈ (d.formOf w).terms, 0 ≤ t.2 * y t.1 := by
    intro t ht
    rcases (h.within.confined_formOf h.bound).nonNegative_or_zero hreduced.normal ht with hbound | hzero
    · have hcoefficient := nonneg_of_lowering?_eq_none hreduced.normal hlowering (hbound.trans_ne (by decide))
      rw [((Form.mem_terms_iff hreduced.normal).mp ht).1] at hcoefficient
      exact mul_nonneg hcoefficient (hy.nonneg _ hbound)
    · rw [hy.zero _ hzero, mul_zero]
  rw [← hy.holds.eval_formOf w, Form.eval_eq]
  exact le_add_of_nonneg_left (sumAt_nonneg hterms)

theorem Descending.constant_nonneg (h : Descending w m t z d) : 0 ≤ z.constant := by
  have hvalue := (h.solved.reduced_formOf h.lt).eval_value
  rw [h.solved.holds_value.eval_formOf] at hvalue
  rw [h.eq, Dictionary.constant_combination, ← hvalue]
  exact h.within.value_nonneg h.solved h.bound

end RectLayout.LinearProgram
