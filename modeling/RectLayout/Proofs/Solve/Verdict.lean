import RectLayout.Proofs.Solve.Correction

/-!
# What a correction says is true

Everything that a correction says of its point agrees with the rows at that point (`honest_correct`). The rows that it
lists are the violated ones and its residual is what they add up to. It says that it did its best only if there are
some, and it names a rounding exactly if that is the first of the three that satisfies every row
(`strategy_correct_iff`), and then that rounding is its point.
-/

namespace RectLayout

open Correction

/-- The first of some points that misses no demand by more than the tolerance. -/
def FirstSatisfying (p : Problem Rat) (t : Rat) (points : List (Strategy × Array Rat)) (q : Strategy × Array Rat) :
    Prop :=
  ∃ before after, points = before ++ q :: after ∧ (∀ r ∈ p.rows, missAt q.2 r ≤ t) ∧
    ∀ b ∈ before, ¬ ∀ r ∈ p.rows, missAt b.2 r ≤ t

/-- What a correction of `x` says is true of its point. -/
structure Correction.Honest (p : Problem Rat) (x : Array Rat) (t : Rat) (c : Correction Rat) : Prop where
  size : c.values.size = x.size
  whole : AllWhole c.values
  violated : c.violated = (p.rows.filter fun r => t < missAt c.values r).map fun r => r.2.label
  residual : c.residual = ((p.rows.filter fun r => t < missAt c.values r).map (missAt c.values)).sum
  residual_pos : 0 < c.residual ↔ c.violated ≠ []
  bestEffort : c.strategy = .bestEffort ↔ c.violated ≠ []
  warning : c.warning = if c.strategy = .bestEffort then some ⟨c.residual, c.violated⟩ else none
  rounding : ∀ q ∈ roundings x, c.strategy = q.1 ↔ FirstSatisfying p t (roundings x) q
  rounded : ∀ q ∈ roundings x, c.strategy = q.1 → c.values = q.2

variable {p : Problem Rat} {x : Array Rat} {t : Rat} {config : CorrectionConfig Rat} {q : Strategy × Array Rat}

theorem find?_satisfying_iff (points : List (Strategy × Array Rat)) :
    (points.find? fun (_, y) => p.isSatisfied y t) = some q ↔ FirstSatisfying p t points q := by
  rw [List.find?_eq_some_iff_append]
  constructor
  · rintro ⟨hq, before, after, rfl, hbefore⟩
    refine ⟨before, after, rfl, Problem.isSatisfied_iff_missAt.mp hq, fun b hb => ?_⟩
    rw [← Problem.isSatisfied_iff_missAt]
    simpa using hbefore b hb
  · rintro ⟨before, after, rfl, hq, hbefore⟩
    refine ⟨Problem.isSatisfied_iff_missAt.mpr hq, before, after, rfl, fun b hb => ?_⟩
    have hno := hbefore b hb
    rw [← Problem.isSatisfied_iff_missAt] at hno
    simpa using hno

/-- A correction whose strategy is the one of a rounding found that rounding first. -/
theorem strategy_correct_iff (hq : q ∈ roundings x) : (correct p x config).strategy = q.1 ↔
    ((roundings x).find? fun (_, y) => p.isSatisfied y config.tolerance) = some q := by
  unfold correct
  split
  · rename_i strategy y hfind
    rw [hfind, Option.some.injEq]
    have hmem := List.mem_of_find?_eq_some hfind
    refine ⟨fun h => ?_, fun h => congrArg Prod.fst h⟩
    -- no two roundings have one strategy
    simp only [roundings, List.mem_cons, List.not_mem_nil, or_false] at hq hmem
    change strategy = q.1 at h
    rcases hq with rfl | rfl | rfl <;> rcases hmem with hmem | hmem | hmem <;> simp_all
  · rename_i hnone
    dsimp only
    refine iff_of_false (fun h => ?_) (by simp [hnone])
    simp only [roundings, List.mem_cons, List.not_mem_nil, or_false] at hq
    change (if _ then Strategy.localSearch else Strategy.bestEffort) = q.1 at h
    rcases hq with rfl | rfl | rfl <;> split at h <;> cases h

theorem values_correct_of_find
    (h : ((roundings x).find? fun (_, y) => p.isSatisfied y config.tolerance) = some q) :
    (correct p x config).values = q.2 := by
  rw [correct, h]
  rfl

theorem bestEffort_correct_iff :
    (correct p x config).strategy = .bestEffort ↔ (correct p x config).violated ≠ [] := by
  rw [correct_violated, Ne, Problem.violatedLabels_eq_nil_iff, ← isExact_correct, isExact, bne_iff_ne, not_not]

/-- What a correction says is true, for a tolerance that is not negative. -/
theorem honest_correct (p : Problem Rat) (x : Array Rat) (config : CorrectionConfig Rat)
    (ht : 0 ≤ config.tolerance) : Honest p x config.tolerance (correct p x config) where
  size := size_correct p x config
  whole := allWhole_correct p x config
  violated := correct_violated p x config
  residual := (correct_residual p x config).trans (Problem.totalViolation_eq_sum p _ _)
  residual_pos := by
    rw [correct_residual, correct_violated, Ne, Problem.violatedLabels_eq_nil_iff]
    exact Problem.totalViolation_pos_iff ht
  bestEffort := bestEffort_correct_iff
  warning := by
    by_cases h : (correct p x config).strategy = .bestEffort <;> simp [warning, isExact, h]
  rounding q hq := (strategy_correct_iff hq).trans (find?_satisfying_iff _)
  rounded q hq h := values_correct_of_find ((strategy_correct_iff hq).mp h)

/-- Twice an unknown is to be one. -/
def halfProblem : Problem Rat := ⟨1, [.ofTerms [(0, 2)] (-1) "half"], [], [], [], #[0]⟩

/-- No whole number is a half: rounding up is as good as it gets. -/
theorem honest_correct_half : 0 ≤ (CorrectionConfig.standard : CorrectionConfig Rat).tolerance ∧
    Honest halfProblem #[1 / 2] (CorrectionConfig.standard : CorrectionConfig Rat).tolerance
      (correct halfProblem #[1 / 2] .standard) ∧
    correct halfProblem #[1 / 2] .standard = ⟨#[1], .bestEffort, 1, ["half"]⟩ := by
  have ht : 0 ≤ (CorrectionConfig.standard : CorrectionConfig Rat).tolerance := by decide +kernel
  exact ⟨ht, honest_correct halfProblem #[1 / 2] .standard ht, by decide +kernel⟩

end RectLayout
