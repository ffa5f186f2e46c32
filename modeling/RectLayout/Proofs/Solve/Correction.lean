import RectLayout.Proofs.Box
import RectLayout.Proofs.Problem.NormalForm
import RectLayout.Proofs.Problem.Violation
import RectLayout.Solve.Correction

/-!
# What a correction reports

A correction has a value for every unknown (`size_correct`) and lists the rows that its point violates
(`correct_violated`). It warns if there are any: it calls itself exact just when its point satisfies every row
(`isExact_correct`), as the search tells truly whether it succeeded (`localSearch_snd`). So every violated row is
reported (`reported_of_violated`).

Whatever it reports, its point is on the grid (`allWhole_correct`): the search starts from a rounding and moves unknowns
by whole amounts.
-/

namespace RectLayout

namespace Correction

variable {α : Type} [Scalar α]

/-- The search succeeded exactly if its point satisfies every row. -/
theorem localSearch_snd (p : Problem α) (x : Array α) (config : CorrectionConfig α) (rounds : Nat)
    (current : Array α) (violation : α) : (localSearch p x config rounds current violation).2 =
      p.isSatisfied (localSearch p x config rounds current violation).1 config.tolerance := by
  induction rounds generalizing current violation with
  | zero => rfl
  | succ rounds ih =>
    unfold localSearch
    dsimp only
    split
    · rename_i m hm
      have hsatisfied := List.find?_some hm
      exact hsatisfied.symm
    · split
      · apply ih
      · rfl

theorem size_move (x : Array α) (m : Nat × α) : (move x m).size = x.size := Array.size_modify

theorem size_localSearch (p : Problem α) (x : Array α) (config : CorrectionConfig α) (rounds : Nat)
    (current : Array α) (violation : α) :
    (localSearch p x config rounds current violation).1.size = current.size := by
  induction rounds generalizing current violation with
  | zero => rfl
  | succ rounds ih =>
    unfold localSearch
    dsimp only
    split
    · apply size_move
    · split
      · rw [ih, size_move]
      · rfl

/-- The least violated of some points is one of them. -/
theorem mem_leastViolated (p : Problem α) (tolerance : α) (start : Array α) (points : List (Array α)) :
    (leastViolated p tolerance start points).1 ∈ start :: points := by
  unfold leastViolated
  refine List.foldlRecOn (motive := fun best : Array α × α => best.1 ∈ start :: points) points _ List.mem_cons_self
    fun best hbest y hy => ?_
  dsimp only
  split
  · exact List.mem_cons_of_mem start hy
  · exact hbest

/-- The search starts at one of the roundings. -/
theorem start_mem_roundings (p : Problem α) (tolerance : α) (x : Array α) :
    (leastViolated p tolerance (x.map Scalar.round) [x.map Scalar.floor, x.map Scalar.ceil]).1 ∈
      (roundings x).map Prod.snd :=
  mem_leastViolated p tolerance _ _

theorem size_of_mem_roundings {x y : Array α} (hy : y ∈ (roundings x).map Prod.snd) : y.size = x.size := by
  simp only [roundings, List.map_cons, List.map_nil, List.mem_cons, List.not_mem_nil, or_false] at hy
  rcases hy with rfl | rfl | rfl <;> exact Array.size_map

end Correction

open Correction

section

variable {α : Type} [Scalar α] (p : Problem α) (x : Array α) (config : CorrectionConfig α)

/-- A correction has a value for every unknown. -/
theorem size_correct : (correct p x config).values.size = x.size := by
  unfold correct
  split
  · rename_i strategy y hfind
    exact size_of_mem_roundings (List.mem_map_of_mem (List.mem_of_find?_eq_some hfind))
  · exact (size_localSearch ..).trans (size_of_mem_roundings (start_mem_roundings p config.tolerance x))

/-- A correction lists exactly the labels of the rows that its point violates. -/
theorem correct_violated :
    (correct p x config).violated = p.violatedLabels (correct p x config).values config.tolerance := by
  unfold correct
  split <;> rfl

/-- The residual of a correction is the total violation at its point. -/
theorem correct_residual :
    (correct p x config).residual = p.totalViolation (correct p x config).values config.tolerance := by
  unfold correct
  split <;> rfl

/-- A correction is exact just when its point satisfies every row. -/
theorem isExact_correct :
    (correct p x config).isExact = p.isSatisfied (correct p x config).values config.tolerance := by
  unfold correct
  split
  · rename_i strategy y hfind
    have hsatisfied := List.find?_some hfind
    have hmem := List.mem_of_find?_eq_some hfind
    simp only [roundings, List.mem_cons, Prod.mk.injEq, List.not_mem_nil, or_false] at hmem
    refine Eq.trans ?_ hsatisfied.symm
    obtain ⟨rfl, -⟩ | ⟨rfl, -⟩ | ⟨rfl, -⟩ := hmem <;> rfl
  · dsimp only
    refine Eq.trans ?_ (localSearch_snd ..)
    split
    · rename_i hsatisfied
      exact hsatisfied.symm
    · rename_i hsatisfied
      exact (Bool.eq_false_iff.mpr hsatisfied).symm

end

variable {p : Problem Rat} {x : Array Rat} {config : CorrectionConfig Rat}

/-- Every row that the corrected point violates is reported. -/
theorem reported_of_violated {r : RowKind × Row Rat} (hr : r ∈ p.rows)
    (h : config.tolerance < r.1.violation (r.2.eval (correct p x config).values)) :
    ∃ w, (correct p x config).warning = some w ∧ r.2.label ∈ w.violated := by
  have hmem : r.2.label ∈ (correct p x config).violated := by
    rw [correct_violated]
    exact List.mem_map.mpr ⟨r, Problem.mem_violated_iff.mpr ⟨hr, h⟩, rfl⟩
  by_cases hexact : (correct p x config).isExact
  · rw [isExact_correct] at hexact
    rw [correct_violated, Problem.violatedLabels_eq_nil_iff.mpr hexact] at hmem
    cases hmem
  · exact ⟨⟨_, _⟩, by rw [Correction.warning, if_neg hexact], hmem⟩

/-! ## Whole values -/

/-- All unknowns are whole numbers at a point. -/
def AllWhole (x : Array Rat) : Prop := ∀ i, IsWhole (valueAt x i)

theorem valueAt_map (f : Rat → Rat) (x : Array Rat) (i : Nat) :
    valueAt (x.map f) i = if i < x.size then f (valueAt x i) else 0 := by
  by_cases hi : i < x.size <;> simp [valueAt, Array.getD, hi]

theorem AllWhole.map {f : Rat → Rat} (hf : ∀ v, IsWhole (f v)) (x : Array Rat) : AllWhole (x.map f) := by
  intro i
  rw [valueAt_map]
  exact (hf _).ite ⟨0, Int.cast_zero.symm⟩

namespace Correction

variable {current : Array Rat} {m : Nat × Rat}

theorem valueAt_move (x : Array Rat) (m : Nat × Rat) (i : Nat) :
    valueAt (move x m) i = if m.1 = i ∧ i < x.size then valueAt x i + m.2 else valueAt x i :=
  valueAt_modify x m.1 (· + m.2) i

theorem allWhole_move (hx : AllWhole x) (hm : IsWhole m.2) : AllWhole (move x m) := by
  intro i
  rw [valueAt_move]
  exact ((hx i).add hm).ite (hx i)

/-- The offsets are the whole numbers within the window, without zero. -/
theorem mem_offsets_iff {window : Int} {v : Rat} :
    v ∈ offsets window ↔ ∃ k : Int, k ≠ 0 ∧ |k| ≤ window ∧ v = k := by
  simp only [offsets, List.mem_flatMap, List.mem_range, List.mem_cons, List.not_mem_nil, or_false]
  constructor
  · rintro ⟨k, hk, rfl | rfl⟩
    · exact ⟨-((k + 1 : Nat) : Int), by omega, by rw [abs_neg, Nat.abs_cast]; omega, (Int.cast_neg _).symm⟩
    · exact ⟨((k + 1 : Nat) : Int), by omega, by rw [Nat.abs_cast]; omega, rfl⟩
  · rintro ⟨k, hk, hwindow, rfl⟩
    refine ⟨k.natAbs - 1, by rw [Int.abs_eq_natAbs] at hwindow; omega, ?_⟩
    have hnat : ((k.natAbs - 1 + 1 : Nat) : Int) = k.natAbs := by omega
    rcases k.natAbs_eq with h | h
    · refine .inr ?_
      show (k : Rat) = (((k.natAbs - 1 + 1 : Nat) : Int) : Rat)
      rw [hnat, ← h]
    · refine .inl ?_
      show (k : Rat) = -(((k.natAbs - 1 + 1 : Nat) : Int) : Rat)
      rw [hnat, ← Int.cast_neg, ← h]

theorem isWhole_of_mem_moves (hm : m ∈ moves p x current config) : IsWhole m.2 := by
  simp only [moves, List.mem_flatMap, List.mem_map] at hm
  obtain ⟨i, -, v, hv, rfl⟩ := hm
  obtain ⟨k, -, -, rfl⟩ := mem_offsets_iff.mp hv
  exact ⟨k, rfl⟩

/-- The best move is one of the moves. -/
theorem mem_of_bestMove {tolerance bound v : Rat} {ms : List (Nat × Rat)}
    (h : bestMove p current tolerance bound ms = some (m, v)) : m ∈ ms := by
  have key : ∀ b ∈ bestMove p current tolerance bound ms, b.1 ∈ ms := by
    unfold bestMove
    refine List.foldlRecOn (motive := fun best : Option ((Nat × Rat) × Rat) => ∀ b ∈ best, b.1 ∈ ms) ms _ (by simp)
      fun best hbest m' hm' => ?_
    dsimp only
    split
    · rintro b ⟨⟩
      exact hm'
    · exact hbest
  exact key _ h

theorem allWhole_localSearch {rounds : Nat} {violation : Rat} (h : AllWhole current) :
    AllWhole (localSearch p x config rounds current violation).1 := by
  induction rounds generalizing current violation with
  | zero => exact h
  | succ rounds ih =>
    unfold localSearch
    dsimp only
    split
    · rename_i m hm
      exact allWhole_move h (isWhole_of_mem_moves (List.mem_of_find?_eq_some hm))
    · split
      · rename_i m v hbest
        exact ih (allWhole_move h (isWhole_of_mem_moves (mem_of_bestMove hbest)))
      · exact h

end Correction

/-- The roundings of a point are on the grid. -/
theorem allWhole_of_mem_roundings {y : Array Rat} (hy : y ∈ (roundings x).map Prod.snd) : AllWhole y := by
  simp only [roundings, List.map_cons, List.map_nil, List.mem_cons, List.not_mem_nil, or_false] at hy
  rcases hy with rfl | rfl | rfl
  · exact .map (fun v => ⟨Scalar.roundRat v, rfl⟩) x
  · exact .map (fun v => ⟨v.floor, rfl⟩) x
  · exact .map (fun v => ⟨v.ceil, rfl⟩) x

/-- A correction leads to whole numbers. -/
theorem allWhole_correct (p : Problem Rat) (x : Array Rat) (config : CorrectionConfig Rat) :
    AllWhole (correct p x config).values := by
  unfold correct
  split
  · rename_i strategy y hfind
    exact allWhole_of_mem_roundings (List.mem_map_of_mem (List.mem_of_find?_eq_some hfind))
  · exact allWhole_localSearch (allWhole_of_mem_roundings (start_mem_roundings p config.tolerance x))

end RectLayout
