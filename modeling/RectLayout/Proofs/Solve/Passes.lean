import RectLayout.Proofs.Problem.Row
import RectLayout.Proofs.Traverse
import RectLayout.Solve.Optimizer

/-!
# Passes towards the least area

What a search by linear passes does is settled by the weights at which it makes them (`passWeights`): its point is the
best of those that the passes complete with, in order, where a later one only counts as better by a margin
(`minimizeBy_eq`). So nothing is asked of a pass at other weights (`minimizeBy_congr`), there are no more passes than the
bound says (`length_passWeights_le`), and no pass completes with an area that is less by more than the margin
(`foldl_improve`), whatever the passes do (`minimizeBy_best`).
-/

namespace RectLayout

open ExtentWeights

section

variable {α : Type} [Scalar α] {p : Problem α} {pass pass' : ExtentWeights α → Except String (Array α)}

/-- The weights at which at most `n` passes are made. A pass that fails is the last, and so is one whose point has the
weights that led to it. -/
def passWeights (p : Problem α) (pass : ExtentWeights α → Except String (Array α)) :
    Nat → ExtentWeights α → List (ExtentWeights α)
  | 0, _ => []
  | n + 1, weights =>
    weights ::
      match checkedPass p pass weights with
      | .error _ => []
      | .ok x => if (atPoint p.boxes x).settled weights then [] else passWeights p pass n (atPoint p.boxes x)

/-- The weights of the first pass. -/
def firstWeights (p : Problem α) : ExtentWeights α := atPoint p.boxes (resize p.initial p.numVars)

/-- The weights of all passes of a search. -/
def searchWeights (p : Problem α) (pass : ExtentWeights α → Except String (Array α)) : List (ExtentWeights α) :=
  passWeights p pass maxPasses (firstWeights p)

/-- The points of the passes that complete. -/
def completed (p : Problem α) (pass : ExtentWeights α → Except String (Array α)) (ws : List (ExtentWeights α)) :
    List (Array α) :=
  ws.filterMap fun w => (checkedPass p pass w).toOption

/-- The better one of the best point so far, which comes with its area, and another point. -/
def improve (p : Problem α) (best : Array α × α) (x : Array α) : Array α × α :=
  if area p.boxes x < best.2 - settling then (x, area p.boxes x) else best

/-! ## The passes of a search -/

theorem length_passWeights_le (n : Nat) (weights : ExtentWeights α) : (passWeights p pass n weights).length ≤ n := by
  induction n generalizing weights with
  | zero => exact Nat.le_refl 0
  | succ n ih =>
    unfold passWeights
    rw [List.length_cons, Nat.add_le_add_iff_right]
    split
    · exact Nat.zero_le n
    · split
      · exact Nat.zero_le n
      · exact ih _

/-- A pass depends on what is asked at its own weights only. -/
theorem checkedPass_congr {weights : ExtentWeights α} (h : pass' weights = pass weights) :
    checkedPass p pass' weights = checkedPass p pass weights := by
  rw [checkedPass, h, checkedPass]

/-- If two ways to solve a pass agree at the weights of one search, they make the same passes. -/
theorem passWeights_congr {n : Nat} {weights : ExtentWeights α}
    (h : ∀ w ∈ passWeights p pass n weights, pass' w = pass w) :
    passWeights p pass' n weights = passWeights p pass n weights := by
  induction n generalizing weights with
  | zero => rfl
  | succ n ih =>
    unfold passWeights at h ⊢
    rw [checkedPass_congr (h weights List.mem_cons_self)]
    congr 1
    cases hpass : checkedPass p pass weights with
    | error message => rfl
    | ok x =>
      rw [hpass] at h
      dsimp only at h ⊢
      split
      · rfl
      · rename_i hsettled
        rw [if_neg hsettled] at h
        exact ih fun w hw => h w (List.mem_cons_of_mem _ hw)

theorem mem_completed_iff {ws : List (ExtentWeights α)} {x : Array α} :
    x ∈ completed p pass ws ↔ ∃ w ∈ ws, checkedPass p pass w = .ok x := by
  rw [completed, List.mem_filterMap]
  refine exists_congr fun w => and_congr_right fun _ => ?_
  cases checkedPass p pass w <;> simp [Except.toOption]

/-- The passes lead to the best of the points that they complete with. -/
theorem passesFrom_eq (n : Nat) (weights : ExtentWeights α) (best : Array α) (least : α) :
    passesFrom p pass n weights best least =
      ((completed p pass (passWeights p pass n weights)).foldl (improve p) (best, least)).1 := by
  induction n generalizing weights best least with
  | zero => rfl
  | succ n ih =>
    unfold passesFrom passWeights completed
    rw [List.filterMap_cons]
    cases hpass : checkedPass p pass weights with
    | error message => rfl
    | ok x =>
      dsimp only [Except.toOption]
      rw [List.foldl_cons]
      by_cases hsettled : (atPoint p.boxes x).settled weights
      · rw [if_pos hsettled, if_pos hsettled]
        rfl
      · rw [if_neg hsettled, if_neg hsettled]
        exact ih _ (improve p (best, least) x).1 (improve p (best, least) x).2

/-- A search fails as its first pass fails, or leads to the best of the points that its passes complete with. -/
theorem minimizeBy_eq : minimizeBy p pass = (checkedPass p pass (firstWeights p)).map fun x =>
    ((completed p pass (searchWeights p pass).tail).foldl (improve p) (x, area p.boxes x)).1 := by
  unfold minimizeBy searchWeights maxPasses passWeights
  rw [List.tail_cons]
  show (match checkedPass p pass (firstWeights p) with | .error message => _ | .ok x => _) = _
  cases hpass : checkedPass p pass (firstWeights p) with
  | error message => rfl
  | ok x =>
    dsimp only [Except.map]
    change (if (atPoint p.boxes x).settled (firstWeights p) then _ else _) = _
    by_cases hsettled : (atPoint p.boxes x).settled (firstWeights p)
    · rw [if_pos hsettled, if_pos hsettled]
      rfl
    · rw [if_neg hsettled, if_neg hsettled, passesFrom_eq]

/-- The outcome of a search depends on nothing but its passes. -/
theorem minimizeBy_congr (h : ∀ w ∈ searchWeights p pass, pass' w = pass w) :
    minimizeBy p pass' = minimizeBy p pass := by
  have hfirst : pass' (firstWeights p) = pass (firstWeights p) := h _ List.mem_cons_self
  have hweights : searchWeights p pass' = searchWeights p pass := passWeights_congr h
  have hcompleted : completed p pass' (searchWeights p pass).tail = completed p pass (searchWeights p pass).tail :=
    List.filterMap_congr fun w hw => by rw [checkedPass_congr (h w (List.mem_of_mem_tail hw))]
  rw [minimizeBy_eq, minimizeBy_eq, checkedPass_congr hfirst, hweights, hcompleted]

end

/-! ## Exact scalars -/

variable {p : Problem Rat} {pass : ExtentWeights Rat → Except String (Array Rat)}

theorem checkedPass_ok_iff {weights : ExtentWeights Rat} {x : Array Rat} : checkedPass p pass weights = .ok x ↔
    pass weights = .ok x ∧ ∀ r ∈ p.rows, r.1.HoldsWithin (1 / 1000000) (r.2.eval x) := by
  rw [← Problem.isSatisfied_iff (by norm_num)]
  unfold checkedPass
  cases pass weights with
  | error message => simp
  | ok y =>
    dsimp only
    split
    · rename_i hy
      exact ⟨fun h => ⟨h, Except.ok.inj h ▸ hy⟩, And.left⟩
    · rename_i hy
      exact ⟨nofun, fun h => absurd (Except.ok.inj h.1 ▸ h.2) hy⟩

/-- The better one of two points is no worse than the first, and no worse than the second but for the margin. -/
theorem improve_spec {best : Array Rat × Rat} (hbest : best.2 = area p.boxes best.1) (x : Array Rat) :
    (improve p best x).2 = area p.boxes (improve p best x).1 ∧
      ((improve p best x).1 = best.1 ∨ (improve p best x).1 = x) ∧ (improve p best x).2 ≤ best.2 ∧
      (improve p best x).2 ≤ area p.boxes x + 1 / 1000000 := by
  have hmargin : (settling : Rat) = 1 / 1000000 := rfl
  unfold improve
  rw [hmargin]
  split
  · exact ⟨rfl, .inr rfl, by dsimp only; linarith, by dsimp only; linarith⟩
  · exact ⟨hbest, .inl rfl, le_refl _, by linarith⟩

/-- The best point is one of those that were compared, and none of them is better by more than the margin. -/
theorem foldl_improve {best : Array Rat × Rat} (hbest : best.2 = area p.boxes best.1) (xs : List (Array Rat)) :
    (xs.foldl (improve p) best).1 ∈ best.1 :: xs ∧
      area p.boxes (xs.foldl (improve p) best).1 ≤ best.2 ∧
      ∀ x ∈ xs, area p.boxes (xs.foldl (improve p) best).1 ≤ area p.boxes x + 1 / 1000000 := by
  induction xs generalizing best with
  | nil => exact ⟨List.mem_cons_self, hbest.ge, List.forall_mem_nil _⟩
  | cons x xs ih =>
    obtain ⟨harea, hmem, hbetter, hmargin⟩ := improve_spec hbest x
    obtain ⟨ihmem, ihbetter, ihmargin⟩ := ih harea
    rw [List.foldl_cons]
    refine ⟨?_, ihbetter.trans hbetter, List.forall_mem_cons.mpr ⟨ihbetter.trans hmargin, ihmargin⟩⟩
    rcases List.mem_cons.mp ihmem with heq | hxs
    · rw [heq]
      rcases hmem with hmem | hmem <;> rw [hmem] <;> simp
    · exact List.mem_cons_of_mem _ (List.mem_cons_of_mem _ hxs)

/-- What is known of the point of a search: one of its passes completed with it, and none completed with an area that
is less by more than the margin. -/
structure IsBest (p : Problem Rat) (pass : ExtentWeights Rat → Except String (Array Rat)) (x : Array Rat) : Prop where
  ofPass : ∃ w ∈ searchWeights p pass, pass w = .ok x
  size : x.size = p.numVars
  satisfied : ∀ r ∈ p.rows, r.1.HoldsWithin (1 / 1000000) (r.2.eval x)
  least : ∀ w ∈ searchWeights p pass, ∀ y, checkedPass p pass w = .ok y →
    area p.boxes x ≤ area p.boxes y + 1 / 1000000

theorem isBest_of_minimizeBy (hsize : ∀ w x, pass w = .ok x → x.size = p.numVars) {x : Array Rat}
    (h : minimizeBy p pass = .ok x) : IsBest p pass x := by
  rw [minimizeBy_eq] at h
  obtain ⟨y, hy, rfl⟩ := map_eq_ok_iff.mp h
  -- the first pass completes with `y`, the later ones with the points of the tail
  have hfirst : searchWeights p pass = firstWeights p :: (searchWeights p pass).tail := rfl
  have hcompleted : completed p pass (searchWeights p pass) = y :: completed p pass (searchWeights p pass).tail := by
    rw [hfirst, completed, List.filterMap_cons, hy]
    rfl
  have hbest : (y, area p.boxes y).2 = area p.boxes (y, area p.boxes y).1 := rfl
  obtain ⟨hmem, hbetter, hmargin⟩ := foldl_improve hbest (completed p pass (searchWeights p pass).tail)
  rw [← hcompleted] at hmem
  obtain ⟨w, hw, hpass⟩ := mem_completed_iff.mp hmem
  obtain ⟨hpass, hsatisfied⟩ := checkedPass_ok_iff.mp hpass
  refine ⟨⟨w, hw, hpass⟩, hsize w _ hpass, hsatisfied, fun w' hw' z hz => ?_⟩
  have hz' := mem_completed_iff.mpr ⟨w', hw', hz⟩
  rw [hcompleted] at hz'
  rcases List.mem_cons.mp hz' with rfl | hz'
  · exact hbetter.trans (by dsimp only; linarith)
  · exact hmargin z hz'

/-- Whatever a pass does, a search makes at most eight, and its outcome depends on them alone. It succeeds exactly if
the first pass has a point that satisfies the rows, fails as that pass fails, and its point is the best one. -/
theorem minimizeBy_best (p : Problem Rat) (pass : ExtentWeights Rat → Except String (Array Rat))
    (hsize : ∀ w x, pass w = .ok x → x.size = p.numVars) :
    (searchWeights p pass).length ≤ 8 ∧
    (∀ pass', (∀ w ∈ searchWeights p pass, pass' w = pass w) → minimizeBy p pass' = minimizeBy p pass) ∧
    ((∃ x, minimizeBy p pass = .ok x) ↔
      ∃ x, pass (firstWeights p) = .ok x ∧ ∀ r ∈ p.rows, r.1.HoldsWithin (1 / 1000000) (r.2.eval x)) ∧
    (∀ message, minimizeBy p pass = .error message ↔ checkedPass p pass (firstWeights p) = .error message) ∧
    ∀ x, minimizeBy p pass = .ok x → IsBest p pass x := by
  refine ⟨length_passWeights_le _ _, fun pass' h => minimizeBy_congr h, ?_, fun message => ?_,
    fun x h => isBest_of_minimizeBy hsize h⟩
  · simp only [minimizeBy_eq, ← checkedPass_ok_iff]
    cases checkedPass p pass (firstWeights p) <;> simp [Except.map]
  · rw [minimizeBy_eq]
    cases checkedPass p pass (firstWeights p) <;> simp [Except.map]

/-- A box that is to be two wide and one high, at least. -/
def stripProblem : Problem Rat :=
  ⟨4, [], [.ofTerms [(2, 1), (0, -1)] (-2) "width", .ofTerms [(3, 1), (1, -1)] (-1) "height"], [0], [], #[0, 0, 10, 10]⟩

/-- A pass that has points at two weights only. -/
def stripPass (weights : ExtentWeights Rat) : Except String (Array Rat) :=
  if weights = [(1, 1)] then .ok #[0, 0, 4, 1] else if weights = [(1 / 4, 1)] then .ok #[0, 0, 2, 1] else .error "stuck"

/-- The second pass is better than the first, and the third fails. -/
theorem minimizeBy_best_strip : (∀ w x, stripPass w = .ok x → x.size = stripProblem.numVars) ∧
    searchWeights stripProblem stripPass = [[(1, 1)], [(1 / 4, 1)], [(1 / 2, 1)]] ∧
    minimizeBy stripProblem stripPass = .ok #[0, 0, 2, 1] ∧ IsBest stripProblem stripPass #[0, 0, 2, 1] := by
  have hsize : ∀ w x, stripPass w = .ok x → x.size = stripProblem.numVars := by
    intro w x h
    unfold stripPass at h
    split at h
    · rw [← Except.ok.inj h]
      rfl
    · split at h
      · rw [← Except.ok.inj h]
        rfl
      · cases h
  have hweights : searchWeights stripProblem stripPass = [[(1, 1)], [(1 / 4, 1)], [(1 / 2, 1)]] := by decide +kernel
  have hpoint : minimizeBy stripProblem stripPass = .ok #[0, 0, 2, 1] := by decide +kernel
  obtain ⟨-, -, -, -, hbest⟩ := minimizeBy_best stripProblem stripPass hsize
  exact ⟨hsize, hweights, hpoint, hbest _ hpoint⟩

end RectLayout
