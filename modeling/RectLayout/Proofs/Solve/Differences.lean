import RectLayout.Proofs.Solve.Correction

/-!
# Differences survive rounding down

A row of differences is one unknown less another, an unknown, or the negative of one, plus a constant
(`Row.IsDifference`). Rounding down commutes with whole shifts and keeps order, so it keeps a difference that is at
least a whole number, and one that is equal to a whole number (`floor_difference`). Rounding to the nearest whole number
does not: a half goes away from zero, so on the two sides of zero it goes in opposite directions. A point that meets
all demands on rows of differences therefore meets them rounded down, if the constants are whole where they have to be
(`RowKind.HoldsWithin.floor`), and a correction goes no further than that (`correct_of_differences`).
-/

namespace RectLayout

variable {p : Problem Rat} {x : Array Rat} {r : Row Rat} {kind : RowKind} {t : Rat} {config : CorrectionConfig Rat}

/-! ## Rows of differences -/

namespace Row

/-- The row is one unknown less another, or one unknown, or the negative of one, plus a constant. -/
inductive IsDifference (r : Row Rat) : Prop where
  | two (j i : Nat) (h : r.terms.toList.Perm [(j, 1), (i, -1)])
  | plus (i : Nat) (h : r.terms = #[(i, 1)])
  | minus (i : Nat) (h : r.terms = #[(i, -1)])

/-- The row with the constant rounded down. -/
def floorConstant (r : Row Rat) : Row Rat := { r with constant := r.constant.floor }

theorem termsAt_perm {l m : List (Nat × Rat)} (h : l.Perm m) : termsAt x l = termsAt x m :=
  (h.map _).sum_eq

theorem IsDifference.size (h : r.IsDifference) : r.terms.size = 1 ∨ r.terms.size = 2 := by
  cases h with
  | two j i h => exact .inr h.length_eq
  | plus i h => exact .inl (by rw [h]; rfl)
  | minus i h => exact .inl (by rw [h]; rfl)

/-- The terms of a row of differences add up to a difference of two numbers, also at the point rounded down. -/
theorem IsDifference.exists_values (h : r.IsDifference) (x : Array Rat) : ∃ v u : Rat,
    termsAt x r.terms.toList = v - u ∧ termsAt (x.map Scalar.floor) r.terms.toList = v.floor - u.floor := by
  have hfloor : ∀ i, valueAt (x.map Scalar.floor) i = (valueAt x i).floor := by
    intro i
    rw [valueAt_map]
    split
    · rfl
    · rename_i hi
      rw [valueAt_of_size_le (Nat.le_of_not_lt hi)]
      rfl
  have hzero : ((0 : Rat).floor : Rat) = 0 := rfl
  cases h with
  | two j i h =>
    refine ⟨valueAt x j, valueAt x i, ?_, ?_⟩
    · rw [termsAt_perm h, termsAt_cons, termsAt_cons, termsAt_nil]
      ring
    · rw [termsAt_perm h, termsAt_cons, termsAt_cons, termsAt_nil, hfloor, hfloor]
      ring
  | plus i h =>
    refine ⟨valueAt x i, 0, ?_, ?_⟩
    · rw [h, termsAt_cons, termsAt_nil]
      ring
    · rw [h, termsAt_cons, termsAt_nil, hfloor, hzero]
      ring
  | minus i h =>
    refine ⟨0, valueAt x i, ?_, ?_⟩
    · rw [h, termsAt_cons, termsAt_nil]
      ring
    · rw [h, termsAt_cons, termsAt_nil, hfloor, hzero]
      ring

end Row

/-! ## Rounding down -/

/-- Rounding down keeps a difference that is at least a whole number. -/
theorem floor_difference {v u : Rat} {n : Int} (h : 0 ≤ v - u + n) : 0 ≤ (v.floor - u.floor + n : Rat) := by
  have hle : u ≤ v + n := by linarith
  have hfloor : u.floor ≤ v.floor + n := by
    rw [← Rat.floor_add_intCast]
    exact Rat.floor_monotone hle
  have hcast : (u.floor : Rat) ≤ v.floor + n := by exact_mod_cast hfloor
  linarith

/-- A demand on a row of differences that is met exactly is met exactly when the point is rounded down, if the constant
is whole; for an inequality it is enough that the demand is met with the constant rounded down. -/
theorem RowKind.HoldsWithin.floor (hr : r.IsDifference) (h : kind.HoldsWithin 0 (r.eval x))
    (hconstant : IsWhole r.constant ∨ kind = .inequality ∧ 0 ≤ r.floorConstant.eval x) :
    kind.HoldsWithin 0 (r.eval (x.map Scalar.floor)) := by
  obtain ⟨v, u, hvalue, hfloor⟩ := hr.exists_values x
  rw [Row.eval_eq_termsAt, hfloor]
  rcases hconstant with ⟨n, hn⟩ | ⟨rfl, hslack⟩
  · rw [Row.eval_eq_termsAt, hvalue, hn] at h
    rw [hn]
    cases kind with
    | inequality =>
      have hle : -(0 : Rat) ≤ v - u + n := h
      have := floor_difference (v := v) (u := u) (n := n) (by linarith)
      show -(0 : Rat) ≤ v.floor - u.floor + n
      linarith
    | equality =>
      -- an equality is a lower bound on the difference and one on its negative
      obtain ⟨hlow, hhigh⟩ := h
      have hle := floor_difference (v := v) (u := u) (n := n) (by linarith)
      have hge := floor_difference (v := u) (u := v) (n := -n) (by push_cast; linarith)
      push_cast at hge
      exact ⟨by linarith, by linarith⟩
  · rw [Row.eval_eq_termsAt] at hslack
    change 0 ≤ Row.termsAt x r.terms.toList + (r.constant.floor : Rat) at hslack
    rw [hvalue] at hslack
    have hdifference := floor_difference hslack
    have hle := Rat.floor_le r.constant
    show -(0 : Rat) ≤ v.floor - u.floor + r.constant
    linarith

/-! ## Correction -/

/-- If a point rounded down satisfies every row, a correction of it ends there or at the nearest whole numbers. -/
theorem strategy_correct_of_floor (h : p.isSatisfied (x.map Scalar.floor) config.tolerance) :
    (correct p x config).strategy = .round ∨ (correct p x config).strategy = .floor := by
  cases hround : p.isSatisfied (x.map Scalar.round) config.tolerance with
  | true =>
    refine .inl ?_
    simp only [correct, Correction.roundings, List.find?_cons, hround]
    rfl
  | false =>
    refine .inr ?_
    simp only [correct, Correction.roundings, List.find?_cons, hround, h]
    rfl

/-- A problem of differences that a point satisfies exactly is satisfied by its correction, which rounds or rounds down,
whatever the number of unknowns and rows. The constants of equalities and of rows of one unknown have to be whole, and
the other inequalities have to hold with their constants rounded down. -/
theorem correct_of_differences (hrows : ∀ r ∈ p.rows, r.2.IsDifference) (hx : p.totalViolation x 0 = 0)
    (hwhole : ∀ r ∈ p.rows, r.1 = .equality ∨ r.2.terms.size = 1 → IsWhole r.2.constant)
    (hslack : ∀ r ∈ p.rows, r.1 = .inequality → r.2.terms.size = 2 → ¬ IsWhole r.2.constant →
      0 ≤ r.2.floorConstant.eval x)
    (ht : 0 ≤ config.tolerance) :
    ((correct p x config).strategy = .round ∨ (correct p x config).strategy = .floor) ∧
      (correct p x config).residual = 0 ∧ (correct p x config).warning = none := by
  have hmet : p.isSatisfied x 0 := by
    by_contra hno
    exact (Problem.totalViolation_pos (le_refl 0) hno).ne' hx
  rw [Problem.isSatisfied_iff (le_refl 0)] at hmet
  have hfloor : p.isSatisfied (x.map Scalar.floor) config.tolerance := by
    rw [Problem.isSatisfied_iff ht]
    intro r hr
    refine ((hmet r hr).floor (hrows r hr) ?_).mono ht
    by_cases hc : IsWhole r.2.constant
    · exact .inl hc
    · have hkind : r.1 = .inequality := by
        cases hk : r.1 with
        | equality => exact absurd (hwhole r hr (.inl hk)) hc
        | inequality => rfl
      have hsize : r.2.terms.size = 2 := (hrows r hr).size.resolve_left fun h => hc (hwhole r hr (.inr h))
      exact .inr ⟨hkind, hslack r hr hkind hsize hc⟩
  have hstrategy := strategy_correct_of_floor hfloor
  have hexact : (correct p x config).isExact := by
    rcases hstrategy with h | h <;> rw [Correction.isExact, h] <;> rfl
  refine ⟨hstrategy, ?_, by rw [Correction.warning, if_pos hexact]⟩
  rw [isExact_correct] at hexact
  rw [correct_residual, Problem.totalViolation_eq_zero hexact]

/-- Two coordinates on the two sides of zero that are three apart, with a least distance and a bound on each of them. -/
def straddle : Problem Rat where
  numVars := 2
  equalities := [.ofTerms [(1, 1), (0, -1)] (-3) "pitch"]
  inequalities := [.ofTerms [(1, 1), (0, -1)] (-1 / 100) "extent", .ofTerms [(0, 1)] 1 "left", .ofTerms [(1, -1)] 3 "right"]
  boxes := []
  containers := []
  initial := #[0, 0]

/-- The nearest whole numbers to a half on each side of zero are too far apart; the next ones below are not. -/
theorem correct_of_differences_straddle : (∀ r ∈ straddle.rows, r.2.IsDifference) ∧
    straddle.totalViolation #[-1 / 2, 5 / 2] 0 = 0 ∧
    straddle.isSatisfied #[-1, 3] (CorrectionConfig.standard : CorrectionConfig Rat).tolerance = false ∧
    (correct straddle #[-1 / 2, 5 / 2] .standard).strategy = .floor ∧
    (correct straddle #[-1 / 2, 5 / 2] .standard).residual = 0 ∧
    (correct straddle #[-1 / 2, 5 / 2] .standard).warning = none := by
  have hrows : straddle.rows = [(.equality, ⟨#[(0, -1), (1, 1)], -3, "pitch"⟩),
      (.inequality, ⟨#[(0, -1), (1, 1)], -1 / 100, "extent"⟩), (.inequality, ⟨#[(0, 1)], 1, "left"⟩),
      (.inequality, ⟨#[(1, -1)], 3, "right"⟩)] := by decide +kernel
  have hdifference : ∀ r ∈ straddle.rows, r.2.IsDifference := by
    simp only [hrows, List.forall_mem_cons]
    exact ⟨.two 1 0 (by decide), .two 1 0 (by decide), .plus 0 rfl, .minus 1 rfl, by simp⟩
  have hx : straddle.totalViolation #[-1 / 2, 5 / 2] 0 = 0 := by decide +kernel
  have hwhole : ∀ r ∈ straddle.rows, r.1 = .equality ∨ r.2.terms.size = 1 → IsWhole r.2.constant := by
    simp only [hrows, List.forall_mem_cons]
    exact ⟨fun _ => .intCast (-3), by simp, fun _ => .intCast 1, fun _ => .intCast 3, by simp⟩
  have hslack : ∀ r ∈ straddle.rows, r.1 = .inequality → r.2.terms.size = 2 → ¬ IsWhole r.2.constant →
      0 ≤ r.2.floorConstant.eval #[-1 / 2, 5 / 2] := by
    have hall : ∀ r ∈ straddle.rows, 0 ≤ r.2.floorConstant.eval #[-1 / 2, 5 / 2] := by decide +kernel
    exact fun r hr _ _ _ => hall r hr
  have ht : 0 ≤ (CorrectionConfig.standard : CorrectionConfig Rat).tolerance := by decide +kernel
  obtain ⟨-, hresidual, hwarning⟩ := correct_of_differences hdifference hx hwhole hslack ht
  exact ⟨hdifference, hx, by decide +kernel, by decide +kernel, hresidual, hwarning⟩

end RectLayout
