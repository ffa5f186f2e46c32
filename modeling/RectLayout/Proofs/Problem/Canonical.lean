import Mathlib.Data.List.Sort
import RectLayout.Proofs.Problem.Row
import RectLayout.Proofs.Problem.NormalForm

/-!
# One row for each function

A list of terms gives each unknown a total coefficient (`Row.total`), to which terms of other unknowns add nothing and
their order makes no difference. Adding a term to terms in order, adding all of them up and leaving out zeros keep the
totals (`Row.total_addTerm`, `Row.total_merge`, `Row.total_filter_ne_zero`), and terms in increasing order without zeros
are determined by their totals (`Row.eq_of_total_eq`). So a row made from terms depends on their totals only; it has
their value at each point, and searching it by halving finds the total of each unknown (`Row.search_eq_some_iff`,
`Row.ofTerms_canonical`).
-/

namespace RectLayout.Row

variable {i j : Nat} {c : Rat} {t : Nat × Rat} {terms terms' : List (Nat × Rat)}

/-! ## Totals -/

/-- The total coefficient of an unknown in a list of terms. -/
def total (terms : List (Nat × Rat)) (i : Nat) : Rat := ((terms.filter fun t => t.1 = i).map Prod.snd).sum

@[simp] theorem total_nil (i : Nat) : total [] i = 0 := rfl

@[simp] theorem total_cons (t : Nat × Rat) (terms : List (Nat × Rat)) (i : Nat) :
    total (t :: terms) i = (if t.1 = i then t.2 else 0) + total terms i := by
  by_cases h : t.1 = i <;> simp [total, h]

theorem total_append (terms terms' : List (Nat × Rat)) (i : Nat) :
    total (terms ++ terms') i = total terms i + total terms' i := by
  simp [total]

/-- An unknown that does not occur has the total zero. -/
theorem total_eq_zero (h : ∀ t ∈ terms, t.1 ≠ i) : total terms i = 0 := by
  rw [total, List.filter_eq_nil_iff.mpr fun t ht => by simpa using h t ht]
  rfl

theorem total_addTerm (i : Nat) (c : Rat) (terms : List (Nat × Rat)) (j : Nat) :
    total (addTerm i c terms) j = total ((i, c) :: terms) j := by
  induction terms with
  | nil => rfl
  | cons t terms ih =>
    obtain ⟨k, d⟩ := t
    unfold addTerm
    split
    · rfl
    · split
      · rename_i hik
        subst hik
        by_cases hij : i = j <;> simp [hij]
        ring
      · rw [total_cons, ih]
        simp only [total_cons]
        ring

theorem total_merge (terms : List (Nat × Rat)) (i : Nat) : total (merge terms) i = total terms i := by
  induction terms using List.reverseRecOn with
  | nil => rfl
  | append_singleton terms t ih =>
    rw [merge_concat, total_addTerm, total_cons, ih, total_append, total_cons, total_nil]
    ring

theorem total_filter_ne_zero (terms : List (Nat × Rat)) (i : Nat) :
    total (terms.filter fun t => t.2 != 0) i = total terms i := by
  induction terms with
  | nil => rfl
  | cons t terms ih => by_cases h : t.2 = 0 <;> simp [h, ih]

/-! ## Terms in order -/

/-- In terms in increasing order, an unknown occurs once at most, so its coefficient is its total. -/
theorem total_eq_of_mem (hsorted : terms.Pairwise fun t u => t.1 < u.1) (h : t ∈ terms) : total terms t.1 = t.2 := by
  induction terms with
  | nil => cases h
  | cons u terms ih =>
    obtain ⟨hu, hterms⟩ := List.pairwise_cons.mp hsorted
    rw [total_cons]
    rcases List.mem_cons.mp h with rfl | h
    · rw [if_pos rfl, total_eq_zero fun v hv => (hu v hv).ne', add_zero]
    · rw [if_neg (hu t h).ne, ih hterms h, zero_add]

/-- The terms in increasing order without zeros are the unknowns whose total is not zero. -/
theorem mem_iff_total (hsorted : terms.Pairwise fun t u => t.1 < u.1) (hzero : ∀ t ∈ terms, t.2 ≠ 0) :
    t ∈ terms ↔ total terms t.1 = t.2 ∧ t.2 ≠ 0 := by
  constructor
  · exact fun h => ⟨total_eq_of_mem hsorted h, hzero t h⟩
  · rintro ⟨htotal, hne⟩
    by_contra hmem
    refine hne (htotal.symm.trans (total_eq_zero fun u hu hut => hmem ?_))
    have hu2 : u.2 = t.2 := by rw [← total_eq_of_mem hsorted hu, hut, htotal]
    rwa [← Prod.ext hut hu2]

/-- Terms in increasing order without zeros are determined by their totals. -/
theorem eq_of_total_eq (hsorted : terms.Pairwise fun t u => t.1 < u.1) (hzero : ∀ t ∈ terms, t.2 ≠ 0)
    (hsorted' : terms'.Pairwise fun t u => t.1 < u.1) (hzero' : ∀ t ∈ terms', t.2 ≠ 0)
    (h : ∀ i, total terms i = total terms' i) : terms = terms' := by
  have hantisymm : Std.Antisymm fun t u : Nat × Rat => t.1 < u.1 := ⟨fun _ _ h h' => absurd h' h.asymm⟩
  have hirrefl : Std.Irrefl fun t u : Nat × Rat => t.1 < u.1 := ⟨fun _ => lt_irrefl _⟩
  refine hsorted.eq_of_mem_iff hsorted' fun t => ?_
  rw [mem_iff_total hsorted hzero, mem_iff_total hsorted' hzero', h]

/-! ## Searching by halving -/

/-- In terms in increasing order, places are in the order of their unknowns. -/
theorem unknown_lt_iff {terms : Array (Nat × Rat)} (hsorted : terms.toList.Pairwise fun t u => t.1 < u.1) {p q : Nat}
    {t u : Nat × Rat} (hp : terms[p]? = some t) (hq : terms[q]? = some u) : t.1 < u.1 ↔ p < q := by
  obtain ⟨hp', rfl⟩ := Array.getElem?_eq_some_iff.mp hp
  obtain ⟨hq', rfl⟩ := Array.getElem?_eq_some_iff.mp hq
  have hlt := List.pairwise_iff_getElem.mp hsorted
  refine ⟨fun h => ?_, hlt p q hp' hq'⟩
  rcases Nat.lt_trichotomy p q with hpq | rfl | hqp
  · exact hpq
  · exact absurd h (lt_irrefl _)
  · exact absurd (hlt q p hq' hp' hqp) h.asymm

/-- A search among terms in increasing order finds what stands between its bounds. -/
theorem search_eq_some_iff {terms : Array (Nat × Rat)} (hsorted : terms.toList.Pairwise fun t u => t.1 < u.1)
    {lo hi : Nat} (hhi : hi ≤ terms.size) :
    search terms i lo hi = some c ↔ ∃ p, lo ≤ p ∧ p < hi ∧ terms[p]? = some (i, c) := by
  fun_induction search terms i lo hi with
  | case1 lo hi hlohi mid hnone =>
    rw [Array.getElem?_eq_none_iff] at hnone
    omega
  | case2 lo hi hlohi mid d hmid =>
    refine ⟨fun h => ⟨mid, by omega, by omega, by rw [hmid, Option.some.inj h]⟩, fun ⟨p, _, _, hp⟩ => ?_⟩
    have hpm : p = mid := by
      have hle := (unknown_lt_iff hsorted hp hmid).not.mp (lt_irrefl _)
      have hge := (unknown_lt_iff hsorted hmid hp).not.mp (lt_irrefl _)
      omega
    rw [hpm, hmid, Option.some.injEq, Prod.mk.injEq] at hp
    rw [hp.2]
  | case3 lo hi hlohi mid k d hmid _ hki ih =>
    refine (ih hhi).trans ⟨fun ⟨p, hlo, hp⟩ => ⟨p, by omega, hp⟩, fun ⟨p, _, hphi, hp⟩ => ⟨p, ?_, hphi, hp⟩⟩
    exact (unknown_lt_iff hsorted hmid hp).mp hki
  | case4 lo hi hlohi mid k d hmid hne hki ih =>
    refine (ih (by omega)).trans ⟨fun ⟨p, hlo, hpm, hp⟩ => ⟨p, hlo, by omega, hp⟩,
      fun ⟨p, hlo, _, hp⟩ => ⟨p, hlo, ?_, hp⟩⟩
    exact (unknown_lt_iff hsorted hp hmid).mp (lt_of_le_of_ne (not_lt.mp hki) (Ne.symm hne))
  | case5 lo hi hlohi => exact ⟨nofun, fun ⟨p, hlo, hphi, _⟩ => absurd (hlo.trans_lt hphi) hlohi⟩

/-- The coefficient that is found in a row is the total of the unknown in it. -/
theorem coefficient_eq_total {r : Row Rat} (hsorted : r.terms.toList.Pairwise fun t u => t.1 < u.1) (i : Nat) :
    r.coefficient i = total r.terms.toList i := by
  have hfound : ∀ c, search r.terms i 0 r.terms.size = some c ↔ (i, c) ∈ r.terms.toList := by
    intro c
    rw [search_eq_some_iff hsorted le_rfl, List.mem_iff_getElem?]
    refine ⟨fun ⟨p, _, _, hp⟩ => ⟨p, by simpa using hp⟩, fun ⟨p, hp⟩ => ⟨p, Nat.zero_le p, ?_, by simpa using hp⟩⟩
    simpa using (List.getElem?_eq_some_iff.mp hp).1
  rw [coefficient]
  cases hsearch : search r.terms i 0 r.terms.size with
  | some c => exact (total_eq_of_mem hsorted ((hfound c).mp hsearch)).symm
  | none =>
    rw [Option.getD_none, total_eq_zero]
    rintro ⟨k, c⟩ ht rfl
    rw [(hfound c).mpr ht] at hsearch
    cases hsearch

/-! ## Rows made from terms -/

theorem total_ofTerms (terms : List (Nat × Rat)) (constant : Rat) (label : String) (i : Nat) :
    total (ofTerms terms constant label).terms.toList i = total terms i := by
  rw [ofTerms, total_filter_ne_zero, total_merge]

/-- A row made from terms is in normal form and depends on the total of each unknown only. It has the value of the terms
at each point that has a value for all of them, the coefficient of an unknown is its total, and it is constant exactly
if every total is zero. -/
theorem ofTerms_canonical (terms : List (Nat × Rat)) (constant : Rat) (label : String) :
    (ofTerms terms constant label).terms.toList.Pairwise (fun t u => t.1 < u.1) ∧
    (∀ t ∈ (ofTerms terms constant label).terms, t.2 ≠ 0) ∧
    (∀ terms', ofTerms terms' constant label = ofTerms terms constant label ↔ ∀ i, total terms' i = total terms i) ∧
    (∀ x : Array Rat, (∀ t ∈ terms, t.1 < x.size) → (ofTerms terms constant label).eval? x =
      some ((ofTerms terms constant label).eval x) ∧
      (ofTerms terms constant label).eval x = constant + (terms.map fun t => t.2 * valueAt x t.1).sum) ∧
    (∀ i, (ofTerms terms constant label).coefficient i = total terms i) ∧
    ((ofTerms terms constant label).isConstant ↔ ∀ i, total terms i = 0) := by
  have hnormal : ∀ terms : List (Nat × Rat),
      (ofTerms terms constant label).terms.toList.Pairwise (fun t u => t.1 < u.1) ∧
      ∀ t ∈ (ofTerms terms constant label).terms.toList, t.2 ≠ 0 := by
    intro terms
    refine ⟨(pairwise_merge terms).filter _, fun t ht => ?_⟩
    simpa using (List.mem_filter.mp ht).2
  obtain ⟨hsorted, hzero⟩ := hnormal terms
  refine ⟨hsorted, fun t ht => hzero t (Array.mem_def.mp ht), fun terms' => ⟨fun h i => ?_, fun h => ?_⟩,
    fun x hx => ⟨eval?_eq_some fun t ht => ?_, ?_⟩, fun i => ?_, ?_⟩
  · rw [← total_ofTerms terms' constant label, h, total_ofTerms]
  · have hterms := eq_of_total_eq (hnormal terms').1 (hnormal terms').2 hsorted hzero fun i => by
      rw [total_ofTerms, total_ofTerms, h]
    rw [ofTerms, ofTerms, Row.mk.injEq]
    exact ⟨Array.toList_inj.mp hterms, rfl, rfl⟩
  · rw [ofTerms, List.mem_toArray, List.mem_filter] at ht
    obtain ⟨u, hu, hut⟩ := unknown_of_mem_merge ht.1
    exact hut ▸ hx u hu
  · rw [eval_ofTerms, add_comm]
    rfl
  · rw [coefficient_eq_total hsorted, total_ofTerms]
  · rw [isConstant, Array.isEmpty_iff, ← Array.toList_eq_nil_iff]
    refine ⟨fun hnil i => ?_, fun h => List.eq_nil_iff_forall_not_mem.mpr fun t ht => hzero t ht ?_⟩
    · rw [← total_ofTerms terms constant label, hnil, total_nil]
    · rw [← total_eq_of_mem hsorted ht, total_ofTerms, h]

/-- Terms of which two cancel and two belong to one unknown. -/
def cancelling : List (Nat × Rat) := [(2, 3), (0, 1), (2, -3), (0, 4)]

theorem ofTerms_canonical_cancelling : (∀ t ∈ cancelling, t.1 < (#[2, 10, 100] : Array Rat).size) ∧
    (ofTerms cancelling 7 "gap").eval? #[2, 10, 100] = some 17 ∧ (ofTerms cancelling 7 "gap").coefficient 2 = 0 ∧
    ¬ (ofTerms cancelling 7 "gap").isConstant ∧ ofTerms [(0, 5)] 7 "gap" = ofTerms cancelling 7 "gap" := by
  obtain ⟨-, -, hsame, heval, hcoefficient, hconstant⟩ := ofTerms_canonical cancelling 7 "gap"
  have hlong : ∀ t ∈ cancelling, t.1 < (#[2, 10, 100] : Array Rat).size := by decide
  obtain ⟨hvalue, hsum⟩ := heval #[2, 10, 100] hlong
  have hseventeen : (ofTerms cancelling 7 "gap").eval #[2, 10, 100] = 17 := by
    rw [hsum]
    norm_num [cancelling, valueAt]
  refine ⟨hlong, by rw [hvalue, hseventeen], ?_, fun h => ?_, (hsame _).mpr fun i => ?_⟩
  · rw [hcoefficient]
    norm_num [cancelling]
  · have hzero := hconstant.mp h 0
    norm_num [cancelling] at hzero
  · simp only [cancelling, total_cons, total_nil]
    split_ifs <;> norm_num

end RectLayout.Row
