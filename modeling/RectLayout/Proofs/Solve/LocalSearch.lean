import Mathlib.Data.List.Induction
import RectLayout.Proofs.Solve.Correction

/-!
# The descent of the local search

A round of the local search takes a move that satisfies every row if there is one, and else the best move if that is an
improvement (`nextMove`). So it never raises the total violation (`totalViolation_nextMove_le`), misses no move that
satisfies every row (`satisfied_nextMove`), and takes no move only where none is an improvement
(`le_totalViolation_of_nextMove_eq_none`). The search is the walk along these moves (`localSearch_eq_walk`), and each of
the three carries over to it by induction on the rounds.

It starts from the first rounding with the least total violation, so a correction is no worse than any rounding
(`descends_correct`). The ranking lists every unknown once (`perm_rankByCriticality`), so if as many of them are tried,
the neighbours of a point are all that differ from it at one unknown, within the window.
-/

namespace RectLayout

/-! ## First minima -/

section FirstLeast

variable {β σ : Type} {f : β → Rat} {l : List β} {b c : β}

/-- The first element of a list at which a function is least. -/
def FirstLeast (f : β → Rat) (l : List β) (b : β) : Prop :=
  ∃ before after, l = before ++ b :: after ∧ (∀ a ∈ before, f b < f a) ∧ ∀ a ∈ after, f b ≤ f a

namespace FirstLeast

theorem mem (h : FirstLeast f l b) : b ∈ l := by
  obtain ⟨before, after, rfl, -⟩ := h
  simp

theorem le (h : FirstLeast f l b) (hc : c ∈ l) : f b ≤ f c := by
  obtain ⟨before, after, rfl, hbefore, hafter⟩ := h
  rcases List.mem_append.mp hc with hc | hc
  · exact (hbefore c hc).le
  · rcases List.mem_cons.mp hc with rfl | hc
    · exact le_rfl
    · exact hafter c hc

theorem find?_eq_some (h : FirstLeast f l b) : (l.find? fun a => f a ≤ f b) = some b := by
  obtain ⟨before, after, rfl, hbefore, -⟩ := h
  exact List.find?_eq_some_iff_append.mpr ⟨by simp, before, after, rfl, fun a ha => by simpa using hbefore a ha⟩

/-- There is only one. -/
theorem unique (h : FirstLeast f l b) (h' : FirstLeast f l c) : b = c := by
  have heq : f b = f c := le_antisymm (h.le h'.mem) (h'.le h.mem)
  have hfind := h.find?_eq_some
  rw [heq, h'.find?_eq_some] at hfind
  exact (Option.some.inj hfind).symm

theorem concat (h : FirstLeast f l b) (hc : f b ≤ f c) : FirstLeast f (l ++ [c]) b := by
  obtain ⟨before, after, rfl, hbefore, hafter⟩ := h
  refine ⟨before, after ++ [c], by simp, hbefore, fun a ha => ?_⟩
  rcases List.mem_append.mp ha with ha | ha
  · exact hafter a ha
  · rwa [List.mem_singleton.mp ha]

theorem last (h : ∀ a ∈ l, f c < f a) : FirstLeast f (l ++ [c]) c := ⟨l, [], rfl, h, by simp⟩

end FirstLeast

/-- A fold that takes the next element whenever that is lower than what it has ends with the first least element, or
with what it had if no element is lower. -/
theorem foldl_firstLeast (f : β → Rat) (value : σ → Rat) (put : β → σ) (hput : ∀ b, value (put b) = f b)
    (l : List β) (s : σ) :
    (l.foldl (fun s b => if f b < value s then put b else s) s = s ∧ ∀ b ∈ l, value s ≤ f b) ∨
      ∃ b, FirstLeast f l b ∧ f b < value s ∧
        l.foldl (fun s b => if f b < value s then put b else s) s = put b := by
  induction l using List.reverseRecOn with
  | nil => exact .inl ⟨rfl, by simp⟩
  | append_singleton l c ih =>
    rw [List.foldl_append, List.foldl_cons, List.foldl_nil]
    rcases ih with ⟨heq, hle⟩ | ⟨b, hb, hlt, heq⟩
    · rw [heq]
      split
      · rename_i hc
        exact .inr ⟨c, .last fun a ha => hc.trans_le (hle a ha), hc, rfl⟩
      · rename_i hc
        refine .inl ⟨rfl, fun a ha => ?_⟩
        rcases List.mem_append.mp ha with ha | ha
        · exact hle a ha
        · rw [List.mem_singleton.mp ha]
          exact not_lt.mp hc
    · rw [heq, hput]
      split
      · rename_i hc
        exact .inr ⟨c, .last fun a ha => hc.trans_le (hb.le ha), hc.trans hlt, rfl⟩
      · rename_i hc
        exact .inr ⟨b, hb.concat (not_lt.mp hc), hlt, rfl⟩

end FirstLeast

namespace Correction

variable {p : Problem Rat} {x y z : Array Rat} {config : CorrectionConfig Rat} {m : Nat × Rat}

/-- The best move is the first one with the least total violation, if that is below the bound. -/
theorem bestMove_cases (p : Problem Rat) (y : Array Rat) (t bound : Rat) (ms : List (Nat × Rat)) :
    (bestMove p y t bound ms = none ∧ ∀ m ∈ ms, bound ≤ p.totalViolation (move y m) t) ∨
      ∃ m, FirstLeast (fun m => p.totalViolation (move y m) t) ms m ∧ p.totalViolation (move y m) t < bound ∧
        bestMove p y t bound ms = some (m, p.totalViolation (move y m) t) :=
  foldl_firstLeast (fun m => p.totalViolation (move y m) t)
    (fun best : Option ((Nat × Rat) × Rat) => (best.map Prod.snd).getD bound)
    (fun m => some (m, p.totalViolation (move y m) t)) (fun _ => rfl) ms none

/-- The least violated of some points is the first one with the least total violation. -/
theorem leastViolated_spec (p : Problem Rat) (t : Rat) (start : Array Rat) (points : List (Array Rat)) :
    FirstLeast (p.totalViolation · t) (start :: points) (leastViolated p t start points).1 ∧
      (leastViolated p t start points).2 = p.totalViolation (leastViolated p t start points).1 t := by
  have h := foldl_firstLeast (p.totalViolation · t) Prod.snd (fun y => (y, p.totalViolation y t)) (fun _ => rfl)
    points (start, p.totalViolation start t)
  change (leastViolated p t start points = _ ∧ _) ∨ ∃ b, _ ∧ _ ∧ leastViolated p t start points = _ at h
  rcases h with ⟨heq, hle⟩ | ⟨b, ⟨before, after, rfl, hbefore, hafter⟩, hlt, heq⟩
  · rw [heq]
    exact ⟨⟨[], points, rfl, by simp, hle⟩, rfl⟩
  · rw [heq]
    exact ⟨⟨start :: before, after, rfl, List.forall_mem_cons.mpr ⟨hlt, hbefore⟩, hafter⟩, rfl⟩

/-! ## One round -/

/-- The move that a round takes at a point, if it takes one. -/
def nextMove (p : Problem Rat) (x : Array Rat) (config : CorrectionConfig Rat) (y : Array Rat) :
    Option (Nat × Rat) :=
  ((moves p x y config).find? fun m => p.isSatisfied (move y m) config.tolerance).or
    ((bestMove p y config.tolerance (p.totalViolation y config.tolerance) (moves p x y config)).map Prod.fst)

/-- A move that satisfies every row is taken at once. -/
theorem satisfied_nextMove (hm : m ∈ moves p x y config) (h : p.isSatisfied (move y m) config.tolerance) :
    ∃ m', nextMove p x config y = some m' ∧ p.isSatisfied (move y m') config.tolerance := by
  have hsome : ((moves p x y config).find? fun m => p.isSatisfied (move y m) config.tolerance).isSome :=
    List.find?_isSome.mpr ⟨m, hm, h⟩
  obtain ⟨m', hm'⟩ := Option.isSome_iff_exists.mp hsome
  have hsatisfied := List.find?_some hm'
  exact ⟨m', by rw [nextMove, hm', Option.some_or], hsatisfied⟩

/-- A move that is taken does not raise the total violation. -/
theorem totalViolation_nextMove_le (ht : 0 ≤ config.tolerance) (h : nextMove p x config y = some m) :
    p.totalViolation (move y m) config.tolerance ≤ p.totalViolation y config.tolerance := by
  rcases Option.or_eq_some_iff.mp h with hfind | ⟨-, hbest⟩
  · have hsatisfied := List.find?_some hfind
    rw [Problem.totalViolation_eq_zero hsatisfied]
    exact Problem.totalViolation_nonneg ht
  · rcases bestMove_cases p y config.tolerance (p.totalViolation y config.tolerance) (moves p x y config) with
      ⟨hnone, -⟩ | ⟨m', -, hlt, hsome⟩
    · simp [hnone] at hbest
    · simp only [hsome, Option.map_some, Option.some.injEq] at hbest
      rw [← hbest]
      exact hlt.le

/-- Where no move is taken, none is an improvement. -/
theorem le_totalViolation_of_nextMove_eq_none (h : nextMove p x config y = none) (hm : m ∈ moves p x y config) :
    p.totalViolation y config.tolerance ≤ p.totalViolation (move y m) config.tolerance := by
  obtain ⟨-, hbest⟩ := Option.or_eq_none_iff.mp h
  rcases bestMove_cases p y config.tolerance (p.totalViolation y config.tolerance) (moves p x y config) with
    ⟨-, hle⟩ | ⟨m', -, -, hsome⟩
  · exact hle m hm
  · simp [hsome] at hbest

/-! ## The search -/

/-- The moves that the search takes from a point in at most that many rounds. -/
def movesTaken (p : Problem Rat) (x : Array Rat) (config : CorrectionConfig Rat) :
    Nat → Array Rat → List (Nat × Rat)
  | 0, _ => []
  | rounds + 1, y =>
    match nextMove p x config y with
    | some m =>
      m :: if p.isSatisfied (move y m) config.tolerance then [] else movesTaken p x config rounds (move y m)
    | none => []

/-- The point to which the moves of the search lead. -/
def walk (p : Problem Rat) (x : Array Rat) (config : CorrectionConfig Rat) (rounds : Nat) (y : Array Rat) : Array Rat :=
  (movesTaken p x config rounds y).foldl move y

/-- A walk ends where no move is taken, and where the move taken satisfies every row; else it goes on from there. -/
theorem walk_succ (p : Problem Rat) (x : Array Rat) (config : CorrectionConfig Rat) (rounds : Nat) (y : Array Rat) :
    walk p x config (rounds + 1) y = match nextMove p x config y with
      | some m =>
        if p.isSatisfied (move y m) config.tolerance then move y m else walk p x config rounds (move y m)
      | none => y := by
  rw [walk, movesTaken]
  cases nextMove p x config y with
  | none => rfl
  | some m =>
    dsimp only
    split <;> rfl

/-- The search ends where its moves lead. -/
theorem localSearch_eq_walk (p : Problem Rat) (x : Array Rat) (config : CorrectionConfig Rat) (rounds : Nat)
    (y : Array Rat) :
    (localSearch p x config rounds y (p.totalViolation y config.tolerance)).1 = walk p x config rounds y := by
  induction rounds generalizing y with
  | zero => rfl
  | succ rounds ih =>
    rw [walk_succ]
    unfold localSearch
    dsimp only
    split
    · rename_i m hm
      have hsatisfied := List.find?_some hm
      rw [nextMove, hm, Option.some_or]
      exact (if_pos hsatisfied).symm
    · rename_i hnone
      rw [nextMove, hnone, Option.none_or]
      rcases bestMove_cases p y config.tolerance (p.totalViolation y config.tolerance) (moves p x y config) with
        ⟨hbest, -⟩ | ⟨m, hm, -, hbest⟩
      · rw [hbest]
        rfl
      · rw [hbest]
        dsimp only [Option.map_some]
        rw [if_neg (List.find?_eq_none.mp hnone m hm.mem), ih]

theorem totalViolation_walk_le (ht : 0 ≤ config.tolerance) (rounds : Nat) (y : Array Rat) :
    p.totalViolation (walk p x config rounds y) config.tolerance ≤ p.totalViolation y config.tolerance := by
  induction rounds generalizing y with
  | zero => exact le_rfl
  | succ rounds ih =>
    rw [walk_succ]
    cases h : nextMove p x config y with
    | none => exact le_rfl
    | some m =>
      have hle := totalViolation_nextMove_le ht h
      dsimp only
      split
      · exact hle
      · exact (ih _).trans hle

/-- A search with a round or more takes a move that satisfies every row if its start has one. -/
theorem isSatisfied_walk {rounds : Nat} (hrounds : 1 ≤ rounds) (hm : m ∈ moves p x y config)
    (h : p.isSatisfied (move y m) config.tolerance) :
    p.isSatisfied (walk p x config rounds y) config.tolerance := by
  obtain ⟨rounds, rfl⟩ := Nat.exists_eq_add_of_le' hrounds
  obtain ⟨m', hm', hsatisfied⟩ := satisfied_nextMove hm h
  rw [walk_succ, hm']
  dsimp only
  rwa [if_pos hsatisfied]

/-- A search that ends early satisfies every row, or has no move left to take. -/
theorem nextMove_walk {rounds : Nat} (hearly : (movesTaken p x config rounds y).length < rounds)
    (h : ¬ p.isSatisfied (walk p x config rounds y) config.tolerance) :
    nextMove p x config (walk p x config rounds y) = none := by
  induction rounds generalizing y with
  | zero => exact absurd hearly (Nat.not_lt_zero _)
  | succ rounds ih =>
    rw [walk_succ] at h ⊢
    rw [movesTaken] at hearly
    cases hnext : nextMove p x config y with
    | none => exact hnext
    | some m =>
      rw [hnext] at h hearly
      dsimp only at h hearly ⊢
      split
      · rename_i hsatisfied
        rw [if_pos hsatisfied] at h
        exact absurd hsatisfied h
      · rename_i hno
        rw [if_neg hno] at h hearly
        exact ih (by simpa using hearly) h

/-! ## Neighbours -/

/-- Two points of one length differ at one of the most critical unknowns of the first, by a whole number within the
window that is not zero. -/
def Neighbour (p : Problem Rat) (x : Array Rat) (config : CorrectionConfig Rat) (y z : Array Rat) : Prop :=
  z.size = y.size ∧ ∃ i ∈ (rankByCriticality p x y config).take config.topK, ∃ k : Int, k ≠ 0 ∧ |k| ≤ config.window ∧
    ∀ j, valueAt z j = if j = i then valueAt y j + k else valueAt y j

/-- Every unknown is ranked once. -/
theorem perm_rankByCriticality (p : Problem Rat) (x y : Array Rat) (config : CorrectionConfig Rat) :
    (rankByCriticality p x y config).Perm (List.range x.size) := by
  have hunknowns : (x.toList.zipIdx.map fun (v, i) => (i, criticality (p.violated y config.tolerance) config i v)).map
      Prod.fst = List.range x.size := by
    rw [List.map_map, List.range_eq_range', ← Array.length_toList, ← List.zipIdx_map_snd]
    rfl
  rw [← hunknowns]
  exact (List.mergeSort_perm _ _).map Prod.fst

/-- All unknowns are among the most critical ones if that many are tried. -/
theorem mem_take_rankByCriticality {i : Nat} (hsize : x.size ≤ config.topK) (hi : i < x.size) :
    i ∈ (rankByCriticality p x y config).take config.topK := by
  have hperm := perm_rankByCriticality p x y config
  rw [List.take_of_length_le (by rwa [hperm.length_eq, List.length_range]), hperm.mem_iff, List.mem_range]
  exact hi

/-- A neighbour is reached by a move that the search tries. -/
theorem exists_move_of_neighbour (h : Neighbour p x config y z) : ∃ m ∈ moves p x y config, z = move y m := by
  obtain ⟨hsize, i, hi, k, hk, hwindow, hvalue⟩ := h
  refine ⟨(i, k), ?_, ?_⟩
  · exact List.mem_flatMap.mpr ⟨i, hi, List.mem_map.mpr ⟨k, mem_offsets_iff.mpr ⟨k, hk, hwindow, rfl⟩, rfl⟩⟩
  · have hget : ∀ (w : Array Rat) (j : Nat) (hj : j < w.size), w[j] = valueAt w j := by
      intro w j hj
      simp [valueAt, Array.getD, hj]
    apply Array.ext
    · rw [hsize, size_move]
    · intro j hj hj'
      rw [hget, hget, hvalue, valueAt_move]
      have hy : j < y.size := hsize ▸ hj
      by_cases hij : j = i
      · rw [if_pos hij, if_pos ⟨hij.symm, hy⟩]
      · rw [if_neg hij, if_neg fun h => hij h.1.symm]

/-- How a correction comes about: by a descent from the first rounding with the least total violation. -/
structure Descends (p : Problem Rat) (x : Array Rat) (config : CorrectionConfig Rat) (c : Correction Rat)
    (start : Array Rat) : Prop where
  first : FirstLeast (p.totalViolation · config.tolerance) ((roundings x).map Prod.snd) start
  /-- It is no worse than any rounding. -/
  le : ∀ y ∈ (roundings x).map Prod.snd,
    p.totalViolation c.values config.tolerance ≤ p.totalViolation y config.tolerance
  /-- Unless a rounding satisfies every row, it is where the search leads from the start. -/
  path : (∀ y ∈ (roundings x).map Prod.snd, ¬ p.isSatisfied y config.tolerance) →
    c.values = walk p x config config.maxRounds start
  /-- It misses no neighbour of the start that satisfies every row. -/
  finds : (∀ y ∈ (roundings x).map Prod.snd, ¬ p.isSatisfied y config.tolerance) → 1 ≤ config.maxRounds →
    (∃ z, Neighbour p x config start z ∧ p.isSatisfied z config.tolerance) → c.strategy = .localSearch
  /-- If it ends before the last round, it ends where no neighbour is better. -/
  stops : c.strategy = .bestEffort → (movesTaken p x config config.maxRounds start).length < config.maxRounds →
    ∀ z, Neighbour p x config c.values z →
      p.totalViolation c.values config.tolerance ≤ p.totalViolation z config.tolerance

end Correction

open Correction

variable {p : Problem Rat} {x : Array Rat} {config : CorrectionConfig Rat}

/-- A correction that no rounding decides is what the search makes of the least violated rounding. -/
theorem correct_of_not_rounded (h : ∀ y ∈ (roundings x).map Prod.snd, ¬ p.isSatisfied y config.tolerance) :
    (correct p x config).values = walk p x config config.maxRounds
        (leastViolated p config.tolerance (x.map Scalar.round) [x.map Scalar.floor, x.map Scalar.ceil]).1 ∧
      (correct p x config).strategy =
        if p.isSatisfied (correct p x config).values config.tolerance then .localSearch else .bestEffort := by
  have hnone : ((roundings x).find? fun (_, y) => p.isSatisfied y config.tolerance) = none :=
    List.find?_eq_none.mpr fun q hq => h q.2 (List.mem_map_of_mem hq)
  have hstart := (leastViolated_spec p config.tolerance (x.map Scalar.round)
    [x.map Scalar.floor, x.map Scalar.ceil]).2
  rw [correct, hnone]
  generalize leastViolated p config.tolerance (x.map Scalar.round) [x.map Scalar.floor, x.map Scalar.ceil] = best
    at hstart ⊢
  obtain ⟨start, violation⟩ := best
  change violation = p.totalViolation start config.tolerance at hstart
  subst hstart
  have hvalues := localSearch_eq_walk p x config config.maxRounds start
  refine ⟨hvalues, ?_⟩
  show (if (localSearch _ _ _ _ _ _).2 then Strategy.localSearch else .bestEffort) = _
  rw [localSearch_snd]
  rfl

/-- No rounding satisfies every row if the correction is not exact. -/
theorem not_rounded_of_not_exact (h : ¬ (correct p x config).isExact) :
    ∀ y ∈ (roundings x).map Prod.snd, ¬ p.isSatisfied y config.tolerance := by
  intro y hy hsatisfied
  obtain ⟨q, hq, rfl⟩ := List.mem_map.mp hy
  have hsome : ((roundings x).find? fun (_, y) => p.isSatisfied y config.tolerance).isSome :=
    List.find?_isSome.mpr ⟨q, hq, hsatisfied⟩
  obtain ⟨q', hq'⟩ := Option.isSome_iff_exists.mp hsome
  have hfound := List.find?_some hq'
  rw [isExact_correct, correct, hq'] at h
  exact h hfound

/-- A correction is no worse than any rounding, misses no neighbour of the best rounding that satisfies every row, and
is a local minimum if it fails early. -/
theorem descends_correct (p : Problem Rat) (x : Array Rat) (config : CorrectionConfig Rat)
    (ht : 0 ≤ config.tolerance) : ∃ start, Descends p x config (correct p x config) start := by
  have hfirst := (leastViolated_spec p config.tolerance (x.map Scalar.round) [x.map Scalar.floor, x.map Scalar.ceil]).1
  refine ⟨_, hfirst, fun y hy => ?_, fun h => (correct_of_not_rounded h).1, fun h hrounds hz => ?_,
    fun hbest hearly z hz => ?_⟩
  · by_cases hexact : (correct p x config).isExact
    · rw [isExact_correct] at hexact
      rw [Problem.totalViolation_eq_zero hexact]
      exact Problem.totalViolation_nonneg ht
    · rw [(correct_of_not_rounded (not_rounded_of_not_exact hexact)).1]
      exact (totalViolation_walk_le ht _ _).trans (hfirst.le hy)
  · obtain ⟨hvalues, hstrategy⟩ := correct_of_not_rounded h
    obtain ⟨z, hneighbour, hsatisfied⟩ := hz
    obtain ⟨m, hm, rfl⟩ := exists_move_of_neighbour hneighbour
    rw [hstrategy, hvalues, if_pos (isSatisfied_walk hrounds hm hsatisfied)]
  · have hexact : ¬ (correct p x config).isExact := by simp [isExact, hbest]
    obtain ⟨hvalues, -⟩ := correct_of_not_rounded (not_rounded_of_not_exact hexact)
    rw [isExact_correct, hvalues] at hexact
    obtain ⟨m, hm, rfl⟩ := exists_move_of_neighbour hz
    rw [hvalues] at hm ⊢
    exact le_totalViolation_of_nextMove_eq_none (nextMove_walk hearly hexact) hm

/-- Two unknowns in order, the first at least 0.3 and the second at most 1.7. -/
def slotProblem : Problem Rat :=
  ⟨2, [], [.ofTerms [(0, 1)] (-(3 / 10)) "left", .ofTerms [(1, -1)] (17 / 10) "right",
    .ofTerms [(1, 1), (0, -1)] 0 "order"], [], [], #[0, 0]⟩

/-- No rounding moves both unknowns into the slot, but from the floor a move of the first one does. -/
theorem descends_correct_slot : 0 ≤ (CorrectionConfig.standard : CorrectionConfig Rat).tolerance ∧
    Descends slotProblem #[2 / 5, 8 / 5] .standard (correct slotProblem #[2 / 5, 8 / 5] .standard) #[0, 1] ∧
    (correct slotProblem #[2 / 5, 8 / 5] .standard).strategy = .localSearch := by
  have ht : 0 ≤ (CorrectionConfig.standard : CorrectionConfig Rat).tolerance := by decide +kernel
  obtain ⟨start, h⟩ := descends_correct slotProblem #[2 / 5, 8 / 5] .standard ht
  have hfloor : FirstLeast (slotProblem.totalViolation · (CorrectionConfig.standard : CorrectionConfig Rat).tolerance)
      ((roundings (#[2 / 5, 8 / 5] : Array Rat)).map Prod.snd) #[0, 1] :=
    ⟨[#[0, 2]], [#[1, 2]], by decide +kernel, by decide +kernel, by decide +kernel⟩
  obtain rfl := h.first.unique hfloor
  refine ⟨ht, h, h.finds (by decide +kernel) (by decide +kernel) ⟨#[1, 1], ⟨rfl, 0, ?_, 1, ?_⟩, by decide +kernel⟩⟩
  · exact mem_take_rankByCriticality (by decide +kernel) (by decide +kernel)
  · refine ⟨one_ne_zero, by decide +kernel, fun j => ?_⟩
    rcases j with _ | _ | j
    · decide +kernel
    · decide +kernel
    · rfl

end RectLayout
