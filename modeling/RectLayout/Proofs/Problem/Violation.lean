import Mathlib.Algebra.Order.BigOperators.Group.List
import RectLayout.Proofs.Problem.Row

/-!
# How far a point is from a problem

Three tests compare the rows of a problem with the tolerance at a point: whether it satisfies all of them, which of them
it violates, and how much it violates them in total. They agree: the total is that of the violated rows
(`Problem.totalViolation_eq_sum`), there are none exactly if the point satisfies every row
(`Problem.violated_eq_nil_iff`), and for a tolerance that is not negative the total is positive exactly if there are
some (`Problem.totalViolation_pos_iff`).
-/

namespace RectLayout

/-- The amount by which a row misses its demand at a point. -/
def missAt (x : Array Rat) (r : RowKind × Row Rat) : Rat := r.1.violation (r.2.eval x)

namespace Problem

variable {p : Problem Rat} {x : Array Rat} {t : Rat} {r : RowKind × Row Rat}

theorem mem_violated_iff : r ∈ p.violated x t ↔ r ∈ p.rows ∧ t < missAt x r := by
  rw [violated, List.mem_filter, decide_eq_true_iff, missAt]

theorem isSatisfied_iff_missAt : p.isSatisfied x t ↔ ∀ r ∈ p.rows, missAt x r ≤ t := by
  simp only [isSatisfied, List.all_eq_true, decide_eq_true_eq, missAt]

/-- A point violates no row exactly if it satisfies all of them. -/
theorem violated_eq_nil_iff : p.violated x t = [] ↔ p.isSatisfied x t := by
  simp only [List.eq_nil_iff_forall_not_mem, mem_violated_iff, isSatisfied_iff_missAt, not_and, not_lt]

theorem violatedLabels_eq_nil_iff : p.violatedLabels x t = [] ↔ p.isSatisfied x t := by
  rw [violatedLabels, List.map_eq_nil_iff, violated_eq_nil_iff]

/-- The total violation is that of the violated rows. -/
theorem totalViolation_eq_sum (p : Problem Rat) (x : Array Rat) (t : Rat) :
    p.totalViolation x t = ((p.violated x t).map (missAt x)).sum := by
  rw [totalViolation, Scalar.sum_eq_list_sum, List.filter_map]
  rfl

theorem totalViolation_eq_zero (h : p.isSatisfied x t) : p.totalViolation x t = 0 := by
  rw [totalViolation_eq_sum, violated_eq_nil_iff.mpr h, List.map_nil, List.sum_nil]

/-- Rows that are violated add up to something. -/
theorem totalViolation_pos (ht : 0 ≤ t) (h : ¬ p.isSatisfied x t) : 0 < p.totalViolation x t := by
  rw [totalViolation_eq_sum]
  apply List.sum_pos
  · intro v hv
    obtain ⟨r, hr, rfl⟩ := List.mem_map.mp hv
    exact ht.trans_lt (mem_violated_iff.mp hr).2
  · rwa [Ne, List.map_eq_nil_iff, violated_eq_nil_iff]

theorem totalViolation_nonneg (ht : 0 ≤ t) : 0 ≤ p.totalViolation x t := by
  by_cases h : p.isSatisfied x t
  · exact (totalViolation_eq_zero h).ge
  · exact (totalViolation_pos ht h).le

theorem totalViolation_pos_iff (ht : 0 ≤ t) : 0 < p.totalViolation x t ↔ ¬ p.isSatisfied x t :=
  ⟨fun hpos h => hpos.ne' (totalViolation_eq_zero h), totalViolation_pos ht⟩

end Problem

end RectLayout
