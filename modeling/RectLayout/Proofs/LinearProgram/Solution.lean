import RectLayout.LinearProgram.Solution
import RectLayout.Proofs.LinearProgram.Elimination

/-!
# Demands are met, or the right one is blamed

A conflict that is valid shows that its demand cannot be met with the earlier ones: at a point that met them all, what
remains of its form would not be negative (`Conflict.not_meetable`). Demands as they were met up to no slack are the
given ones (`Met.eq_of_isValid`). A search blames the demand after those that it has met (`index_eq_of_meet`), and where it
failed elimination decides: without slack, `solveDemands` meets all demands, or ends at the first that cannot be met
together with those before it (`solveDemands_eq_ok`, `solveDemands_eq_error`). The answers of the search are checked, so
that nothing of this depends on its pivots.
-/

namespace RectLayout.LinearProgram

variable {n k : Nat} {x : Nat → Rat} {demands : List Demand}

/-! ## Conflicts -/

namespace Conflict

/-- What remains of the form of a demand has the value that is left when the multiples of the others are taken away. -/
theorem eval_remainder (c : Conflict) (demands : Array Demand) (x : Nat → Rat) :
    (c.remainder demands).eval x = c.sign * (demands.getD c.index default).form.eval x -
      sumAt (fun i => (demands.getD i default).form.eval x) c.multiples := by
  have hfold : ∀ (multiples : List (Nat × Rat)) (f : Form),
      (multiples.foldl (fun f m => f.addScaled (-m.2) (demands.getD m.1 default).form) f).eval x =
        f.eval x - sumAt (fun i => (demands.getD i default).form.eval x) multiples := by
    intro multiples
    induction multiples with
    | nil => exact fun f => (sub_zero _).symm
    | cons m multiples ih =>
      intro f
      rw [List.foldl_cons, ih, Form.eval_addScaled, sumAt_cons]
      ring
  rw [remainder, hfold, Form.eval_scale]

theorem isNormal_remainder {c : Conflict} {demands : Array Demand}
    (hindex : (demands.getD c.index default).form.IsNormal n)
    (hmultiples : ∀ m ∈ c.multiples, (demands.getD m.1 default).form.IsNormal n) : (c.remainder demands).IsNormal n := by
  unfold remainder
  have hstart := hindex.scale c.sign
  generalize (demands.getD c.index default).form.scale c.sign = f at hstart ⊢
  generalize c.multiples = multiples at hmultiples ⊢
  induction multiples generalizing f with
  | nil => exact hstart
  | cons m multiples ih =>
    rw [List.forall_mem_cons] at hmultiples
    exact ih _ (hstart.addScaled hmultiples.1 _) hmultiples.2

/-- The form of a demand that is met, with a multiple that is not negative unless the demand is an equality, is not
negative. -/
theorem mul_eval_nonneg {d : Demand} (hd : d.holds x) {c : Rat} (hc : d.kind = .equality ∨ 0 ≤ c) :
    0 ≤ c * d.form.eval x := by
  rw [Demand.holds_iff] at hd
  cases hkind : d.kind with
  | equality =>
    rw [hkind] at hd
    rw [hd, mul_zero]
  | inequality =>
    rw [hkind] at hd hc
    exact mul_nonneg (hc.resolve_left nofun) hd

/-- A valid conflict is one: the demand cannot be met together with those before it. -/
theorem not_meetable {c : Conflict} {demands : Array Demand} (h : c.isValid demands) :
    ¬ Meetable (demands.toList.take (c.index + 1)) := by
  simp only [isValid, Bool.and_eq_true, Bool.or_eq_true, decide_eq_true_eq, beq_iff_eq, List.all_eq_true,
    List.isEmpty_iff] at h
  obtain ⟨⟨⟨⟨hindex, hsign⟩, hmultiples⟩, hterms⟩, hconstant⟩ := h
  rintro ⟨x, hx⟩
  have hholds : ∀ i ≤ c.index, (demands.getD i default).holds x := by
    intro i hi
    have hi' : i < demands.size := by omega
    have hget : demands.getD i default = demands[i] := by simp [hi']
    rw [hget]
    exact hx _ (List.mem_take_iff_getElem.mpr ⟨i, by simpa using by omega, by simp⟩)
  have hfirst := mul_eval_nonneg (hholds _ le_rfl) (hsign.imp_right le_of_lt)
  have hothers : sumAt (fun i => (demands.getD i default).form.eval x) c.multiples ≤ 0 := by
    refine sumAt_nonpos fun m hm => ?_
    obtain ⟨hlt, hmultiple⟩ := hmultiples m hm
    have hnonneg := mul_eval_nonneg (hholds _ hlt.le) (hmultiple.imp_right neg_nonneg_of_nonpos)
    linarith
  have hremainder := eval_remainder c demands x
  rw [Form.eval_eq, hterms, sumAt_nil, zero_add] at hremainder
  linarith

end Conflict

/-! ## Searches -/

theorem Demand.eq_of_isWithin {d e : Demand} (h : d.isWithin 0 e) : d = e := by
  obtain ⟨kind, terms, constant⟩ := d
  obtain ⟨kind', terms', constant'⟩ := e
  simp only [isWithin, Bool.and_eq_true, beq_iff_eq, decide_eq_true_eq] at h
  obtain ⟨⟨rfl, rfl⟩, hconstant⟩ := h
  have hsub : (if 0 ≤ constant - constant' then constant - constant' else -(constant - constant')) ≤ 0 := hconstant
  have heq : constant = constant' := by split at hsub <;> linarith
  rw [heq]

/-- Up to no slack, the demands that are met are the given ones. -/
theorem Met.eq_of_isValid {m : Met} (h : m.isValid 0 demands) :
    m.demands.toList = demands ∧ ∀ d ∈ demands, d.holds m.dictionary.value := by
  simp only [isValid, Bool.and_eq_true, beq_iff_eq, List.all_eq_true, Array.all_eq_true_iff_forall_mem] at h
  obtain ⟨⟨hsize, hwithin⟩, hholds⟩ := h
  have heq : m.demands.toList = demands := by
    refine List.ext_getElem (by simpa using hsize) fun i hi hi' => ?_
    refine Demand.eq_of_isWithin (hwithin (m.demands.toList[i], demands[i]) ?_)
    exact List.mem_iff_getElem.mpr ⟨i, by simpa using ⟨by simpa using hi, hi'⟩, by simp⟩
  refine ⟨heq, fun d hd => hholds d ?_⟩
  rwa [← heq, ← Array.mem_def] at hd

/-- A search blames the demand after those that it has met. -/
theorem index_eq_of_meet {slack : Rat} {m m' : Met} {c : Conflict} (h : meet n slack m demands = .conflict m' c) :
    c.index = m'.demands.size := by
  fun_induction meet n slack m demands with
  | case1 m => cases h
  | case2 m demand rest d shift hadd form ih => exact ih h
  | case3 m demand rest sign multiples hadd =>
    cases h
    rfl
  | case4 m demand rest hadd => cases h

/-! ## Solutions -/

section

variable (hnormal : ∀ d ∈ demands, d.form.IsNormal n)

include hnormal

theorem eliminateDemands_eq_ok {f : Feasible} (h : eliminateDemands n demands = .ok f) :
    f.demands = demands ∧ ∀ d ∈ demands, d.holds f.point := by
  unfold eliminateDemands at h
  split at h
  · rename_i x hx
    cases h
    exact ⟨rfl, Elimination.decideFrom_eq_ok (List.forall_mem_nil _) hnormal hx⟩
  · cases h

theorem eliminateDemands_eq_error (h : eliminateDemands n demands = .error k) : IsBlamed demands k := by
  unfold eliminateDemands at h
  split at h
  · cases h
  · rename_i j x hx
    cases h
    exact Elimination.decideFrom_eq_error (List.forall_mem_nil _) hnormal hx

/-- Without slack, demands that have a solution are those that were given, and the solution meets them. -/
theorem solveDemands_eq_ok {f : Feasible} (h : solveDemands n 0 demands = .ok f) :
    f.demands = demands ∧ ∀ d ∈ demands, d.holds f.point := by
  unfold solveDemands at h
  split at h
  · split at h
    · rename_i hvalid
      cases h
      exact Met.eq_of_isValid hvalid
    · exact eliminateDemands_eq_ok hnormal h
  · split at h
    · cases h
    · exact eliminateDemands_eq_ok hnormal h
  · exact eliminateDemands_eq_ok hnormal h

/-- Without slack, demands without a solution have none from the one that is blamed on. -/
theorem solveDemands_eq_error (h : solveDemands n 0 demands = .error k) : IsBlamed demands k := by
  unfold solveDemands at h
  split at h
  · split at h
    · cases h
    · exact eliminateDemands_eq_error hnormal h
  · rename_i m c hmeet
    split at h
    · rename_i hvalid
      cases h
      obtain ⟨hmet, hconflict⟩ := Bool.and_eq_true_iff.mp hvalid
      obtain ⟨htake, hholds⟩ := Met.eq_of_isValid hmet
      -- the demands that are met and those that are not yet met are all demands
      have hall : (m.demands ++ (demands.drop m.demands.size).toArray).toList = demands := by
        rw [Array.toList_append, htake, List.take_append_drop]
      have hlt : c.index < demands.length := by
        have hindex : c.index < (m.demands ++ (demands.drop m.demands.size).toArray).size := by
          simp only [Conflict.isValid, Bool.and_eq_true, decide_eq_true_eq] at hconflict
          exact hconflict.1.1.1.1
        rwa [← Array.length_toList, hall] at hindex
      have hnot := Conflict.not_meetable hconflict
      rw [hall] at hnot
      rw [← index_eq_of_meet hmeet] at hholds
      exact ⟨hlt, ⟨_, hholds⟩, hnot⟩
    · exact eliminateDemands_eq_error hnormal h
  · exact eliminateDemands_eq_error hnormal h

end

end RectLayout.LinearProgram
