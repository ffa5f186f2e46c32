import Mathlib.Algebra.BigOperators.Group.List.Basic
import Mathlib.Algebra.Order.Field.Rat
import Mathlib.Tactic.Linarith
import Mathlib.Tactic.Ring
import RectLayout.Problem.Basic

/-!
# What rows say

A row of exact scalars has the value of the terms that it was made from (`Row.eval_ofTerms`): bringing terms into
normal form adds up those of one unknown and drops zeros, which changes no value. Its demand is met within a tolerance
(`RowKind.HoldsWithin`) exactly if its violation is at most the tolerance (`violation_le_iff`), and a problem is
satisfied exactly if the demands of all its rows are met (`Problem.isSatisfied_iff`).
-/

namespace RectLayout

/-- Exact scalars add up the same from any end. -/
theorem Scalar.sum_eq_list_sum (xs : List Rat) : Scalar.sum xs = xs.sum := by
  have key : ∀ (l : List Rat) (s : Rat), l.foldl (· + ·) s = s + l.sum := by
    intro l
    induction l with
    | nil => intro s; simp
    | cons y l ih =>
      intro s
      rw [List.foldl_cons, ih, List.sum_cons, add_assoc]
  rw [Scalar.sum]
  show xs.foldl (· + ·) (-(0 : Rat)) = xs.sum
  rw [key, neg_zero, zero_add]

/-! ## Values of terms -/

namespace Row

variable {x : Array Rat}

/-- The value of a list of terms at a point. -/
def termsAt (x : Array Rat) (terms : List (Nat × Rat)) : Rat := (terms.map fun t => t.2 * valueAt x t.1).sum

@[simp] theorem termsAt_nil : termsAt x [] = 0 := rfl

@[simp] theorem termsAt_cons (t : Nat × Rat) (terms : List (Nat × Rat)) :
    termsAt x (t :: terms) = t.2 * valueAt x t.1 + termsAt x terms := by
  simp [termsAt]

theorem termsAt_addTerm (i : Nat) (c : Rat) (terms : List (Nat × Rat)) :
    termsAt x (addTerm i c terms) = c * valueAt x i + termsAt x terms := by
  induction terms with
  | nil => simp [addTerm]
  | cons t terms ih =>
    obtain ⟨k, d⟩ := t
    unfold addTerm
    split
    · simp only [termsAt_cons]
    · split
      · rename_i hk
        simp only [termsAt_cons, hk]
        ring
      · simp only [termsAt_cons, ih]
        ring

theorem termsAt_merge (terms : List (Nat × Rat)) : termsAt x (merge terms) = termsAt x terms := by
  have key : ∀ acc, termsAt x (terms.foldl (fun acc t => addTerm t.1 t.2 acc) acc) =
      termsAt x acc + termsAt x terms := by
    induction terms with
    | nil => intro acc; simp
    | cons t terms ih =>
      intro acc
      rw [List.foldl_cons, ih, termsAt_addTerm, termsAt_cons]
      ring
  rw [merge, key, termsAt_nil, zero_add]

theorem termsAt_filter_ne_zero (terms : List (Nat × Rat)) :
    termsAt x (terms.filter fun t => t.2 != 0) = termsAt x terms := by
  induction terms with
  | nil => rfl
  | cons t terms ih =>
    by_cases h : t.2 = 0
    · simp [h, ih]
    · simp [h, ih]

theorem eval_eq_termsAt (r : Row Rat) (x : Array Rat) : r.eval x = termsAt x r.terms.toList + r.constant := by
  have key : ∀ (l : List (Nat × Rat)) (s : Rat),
      l.foldl (fun s t => s + t.2 * valueAt x t.1) s = s + termsAt x l := by
    intro l
    induction l with
    | nil => intro s; simp
    | cons t l ih =>
      intro s
      rw [List.foldl_cons, ih, termsAt_cons]
      ring
  rw [eval, ← Array.foldl_toList, key, zero_add]

/-- A row has the value of the terms it was made from. -/
theorem eval_ofTerms (terms : List (Nat × Rat)) (constant : Rat) (label : String) (x : Array Rat) :
    (ofTerms terms constant label).eval x = termsAt x terms + constant := by
  rw [eval_eq_termsAt, ofTerms, termsAt_filter_ne_zero, termsAt_merge]

/-- A row without unknowns has one value. -/
theorem eval_of_isConstant {r : Row Rat} (h : r.isConstant) (x : Array Rat) : r.eval x = r.constant := by
  rw [isConstant, Array.isEmpty_iff] at h
  rw [eval_eq_termsAt, h, Array.toList_empty, termsAt_nil, zero_add]

end Row

/-! ## Demands -/

/-- What is demanded of a row is met within a tolerance by a value. -/
def RowKind.HoldsWithin (t : Rat) : RowKind → Rat → Prop
  | .equality, v => -t ≤ v ∧ v ≤ t
  | .inequality, v => -t ≤ v

/-- A demand that is met within a tolerance is met within a greater one. -/
theorem RowKind.HoldsWithin.mono {kind : RowKind} {s t v : Rat} (h : kind.HoldsWithin s v) (hst : s ≤ t) :
    kind.HoldsWithin t v := by
  cases kind with
  | equality => exact ⟨by linarith [h.1], by linarith [h.2]⟩
  | inequality =>
    have hv : -s ≤ v := h
    show -t ≤ v
    linarith

theorem Scalar.abs_le_iff {t v : Rat} : Scalar.abs v ≤ t ↔ -t ≤ v ∧ v ≤ t := by
  show (if 0 ≤ v then v else -v) ≤ t ↔ -t ≤ v ∧ v ≤ t
  split
  · exact ⟨fun h => ⟨by linarith, h⟩, fun h => h.2⟩
  · exact ⟨fun h => ⟨by linarith, by linarith⟩, fun h => by linarith [h.1]⟩

theorem RowKind.violation_le_iff {t : Rat} (ht : 0 ≤ t) (kind : RowKind) (v : Rat) :
    kind.violation v ≤ t ↔ kind.HoldsWithin t v := by
  cases kind with
  | equality => exact Scalar.abs_le_iff
  | inequality =>
    show (if -v ≤ 0 then 0 else -v) ≤ t ↔ -t ≤ v
    split <;> constructor <;> intro h <;> linarith

/-- A demand is missed by nothing exactly if it is met. -/
theorem RowKind.violation_eq_zero_iff (kind : RowKind) (v : Rat) :
    kind.violation v = 0 ↔ kind.HoldsWithin 0 v := by
  have hnonneg : 0 ≤ kind.violation v := by
    cases kind with
    | equality =>
      show 0 ≤ if 0 ≤ v then v else -v
      split <;> linarith
    | inequality =>
      show 0 ≤ if -v ≤ 0 then 0 else -v
      split <;> linarith
  rw [← violation_le_iff (le_refl 0)]
  exact ⟨le_of_eq, fun h => le_antisymm h hnonneg⟩

theorem Problem.isSatisfied_iff {t : Rat} (ht : 0 ≤ t) (p : Problem Rat) (x : Array Rat) :
    p.isSatisfied x t ↔ ∀ r ∈ p.rows, r.1.HoldsWithin t (r.2.eval x) := by
  simp only [isSatisfied, List.all_eq_true, decide_eq_true_eq, RowKind.violation_le_iff ht]

end RectLayout
