import Mathlib.Algebra.BigOperators.Group.List.Basic
import Mathlib.Algebra.Order.BigOperators.Group.List
import Mathlib.Algebra.Order.Field.Rat
import Mathlib.Data.List.Sort
import Mathlib.Logic.Function.Basic
import Mathlib.Tactic.FieldSimp
import Mathlib.Tactic.LinearCombination
import Mathlib.Tactic.Linarith
import Mathlib.Tactic.Ring
import RectLayout.LinearProgram.Form

/-!
# Values of forms

The operations on forms are those on their values (`Form.eval_addScaled`, `Form.eval_scale`). In a form in normal form
the variables of the terms ascend and no coefficient is zero (`Form.IsNormal`), which the operations keep
(`Form.IsNormal.addScaled`, `Form.IsNormal.erase`). So a variable has one term at most, and its coefficient is what the
value gains when the variable grows (`Form.eval_update`).
-/

namespace RectLayout.LinearProgram

variable {x y : Nat → Rat} {c : Rat} {v n lo lo' : Nat} {a b terms : List (Nat × Rat)}

/-! ## Sums of terms -/

/-- The value of a list of terms. -/
def sumAt (x : Nat → Rat) (terms : List (Nat × Rat)) : Rat := (terms.map fun t => t.2 * x t.1).sum

@[simp] theorem sumAt_nil : sumAt x [] = 0 := rfl

@[simp] theorem sumAt_cons (t : Nat × Rat) (terms : List (Nat × Rat)) :
    sumAt x (t :: terms) = t.2 * x t.1 + sumAt x terms := by
  simp [sumAt]

theorem sumAt_eq_zero (h : ∀ t ∈ terms, t.2 * x t.1 = 0) : sumAt x terms = 0 :=
  List.sum_eq_zero (List.forall_mem_map.mpr h)

theorem sumAt_nonneg (h : ∀ t ∈ terms, 0 ≤ t.2 * x t.1) : 0 ≤ sumAt x terms :=
  List.sum_nonneg (List.forall_mem_map.mpr h)

theorem sumAt_nonpos (h : ∀ t ∈ terms, t.2 * x t.1 ≤ 0) : sumAt x terms ≤ 0 := by
  induction terms with
  | nil => exact le_rfl
  | cons t terms ih =>
    rw [List.forall_mem_cons] at h
    rw [sumAt_cons]
    exact add_nonpos h.1 (ih h.2)

theorem sumAt_map_mul (c : Rat) (terms : List (Nat × Rat)) :
    sumAt x (terms.map fun t => (t.1, c * t.2)) = c * sumAt x terms := by
  induction terms with
  | nil => simp
  | cons t terms ih =>
    rw [List.map_cons, sumAt_cons, sumAt_cons, ih]
    ring

theorem sumAt_addTerms (c : Rat) (a b : List (Nat × Rat)) : sumAt x (addTerms c a b) = sumAt x a + c * sumAt x b := by
  fun_induction addTerms c a b with
  | case1 b => rw [sumAt_map_mul, sumAt_nil, zero_add]
  | case2 a => rw [sumAt_nil, mul_zero, add_zero]
  | case3 i p a k q b hik ih =>
    rw [sumAt_cons, ih, sumAt_cons (i, p)]
    ring
  | case4 i p a k q b hik hki ih =>
    rw [sumAt_cons, ih, sumAt_cons (k, q)]
    ring
  | case5 i p a k q b hik hki s hs ih =>
    obtain rfl : i = k := by omega
    have hs : p + c * q = 0 := hs
    rw [ih, sumAt_cons, sumAt_cons]
    linear_combination (-x i) * hs
  | case6 i p a k q b hik hki s hs ih =>
    obtain rfl : i = k := by omega
    rw [sumAt_cons, ih, sumAt_cons, sumAt_cons]
    ring

/-! ## Ascending terms -/

/-- The variables of the terms ascend from `lo` on, are below `n`, and no coefficient is zero. -/
def Ascending (n : Nat) : Nat → List (Nat × Rat) → Prop
  | _, [] => True
  | lo, (i, c) :: terms => lo ≤ i ∧ i < n ∧ c ≠ 0 ∧ Ascending n (i + 1) terms

namespace Ascending

theorem mono (h : Ascending n lo terms) (hlo : lo' ≤ lo) : Ascending n lo' terms := by
  cases terms with
  | nil => trivial
  | cons t terms => exact ⟨hlo.trans h.1, h.2⟩

theorem map_mul (hc : c ≠ 0) (h : Ascending n lo terms) : Ascending n lo (terms.map fun t => (t.1, c * t.2)) := by
  induction terms generalizing lo with
  | nil => trivial
  | cons t terms ih =>
    obtain ⟨hlo, hn, ht, hterms⟩ := h
    exact ⟨hlo, hn, mul_ne_zero hc ht, ih hterms⟩

theorem addTerms (hc : c ≠ 0) (ha : Ascending n lo a) (hb : Ascending n lo b) :
    Ascending n lo (addTerms c a b) := by
  fun_induction LinearProgram.addTerms c a b generalizing lo with
  | case1 b => exact hb.map_mul hc
  | case2 a => exact ha
  | case3 i p a k q b hik ih =>
    obtain ⟨hlo, hn, hp, ha⟩ := ha
    exact ⟨hlo, hn, hp, ih ha ⟨hik, hb.2⟩⟩
  | case4 i p a k q b hik hki ih =>
    obtain ⟨hlo, hn, hq, hb⟩ := hb
    exact ⟨hlo, hn, mul_ne_zero hc hq, ih ⟨hki, ha.2⟩ hb⟩
  | case5 i p a k q b hik hki s hs =>
    rename_i ih
    obtain rfl : i = k := by omega
    exact ih (ha.2.2.2.mono (Nat.le_succ_of_le ha.1)) (hb.2.2.2.mono (Nat.le_succ_of_le hb.1))
  | case6 i p a k q b hik hki s hs =>
    rename_i ih
    obtain rfl : i = k := by omega
    exact ⟨ha.1, ha.2.1, hs, ih ha.2.2.2 hb.2.2.2⟩

theorem mono_right {m : Nat} (h : Ascending n lo terms) (hnm : n ≤ m) : Ascending m lo terms := by
  induction terms generalizing lo with
  | nil => trivial
  | cons t terms ih =>
    obtain ⟨hlo, hn, ht, hterms⟩ := h
    exact ⟨hlo, hn.trans_le hnm, ht, ih hterms⟩

theorem lt_of_mem (h : Ascending n lo terms) (hmem : (v, c) ∈ terms) : v < n := by
  induction terms generalizing lo with
  | nil => cases hmem
  | cons t terms ih =>
    obtain ⟨-, hn, -, hterms⟩ := h
    rcases List.mem_cons.mp hmem with rfl | hmem
    · exact hn
    · exact ih hterms hmem

theorem forall_le (h : Ascending n lo terms) : ∀ t ∈ terms, lo ≤ t.1 := by
  induction terms generalizing lo with
  | nil => exact List.forall_mem_nil _
  | cons t terms ih =>
    obtain ⟨hlo, -, -, hterms⟩ := h
    exact List.forall_mem_cons.mpr ⟨hlo, fun s hs => (Nat.le_succ_of_le hlo).trans (ih hterms s hs)⟩

theorem pairwise (h : Ascending n lo terms) : terms.Pairwise fun s t => s.1 < t.1 := by
  induction terms generalizing lo with
  | nil => exact .nil
  | cons t terms ih =>
    obtain ⟨-, -, -, hterms⟩ := h
    exact .cons hterms.forall_le (ih hterms)

theorem ne_zero (h : Ascending n lo terms) : ∀ t ∈ terms, t.2 ≠ 0 := by
  induction terms generalizing lo with
  | nil => exact List.forall_mem_nil _
  | cons t terms ih =>
    obtain ⟨-, -, ht, hterms⟩ := h
    exact List.forall_mem_cons.mpr ⟨ht, ih hterms⟩

/-- There are no variables below zero. -/
theorem eq_nil (h : Ascending 0 lo terms) : terms = [] := by
  cases terms with
  | nil => rfl
  | cons t terms => exact absurd h.2.1 (Nat.not_lt_zero _)

/-- A variable below all others has no term. -/
theorem ne_of_lt (h : Ascending n lo terms) (hv : v < lo) : ∀ t ∈ terms, t.1 ≠ v := by
  induction terms generalizing lo with
  | nil => exact List.forall_mem_nil _
  | cons t terms ih =>
    obtain ⟨hlo, -, -, hterms⟩ := h
    exact List.forall_mem_cons.mpr ⟨by omega, ih hterms (by omega)⟩

theorem filter (h : Ascending n lo terms) (p : Nat × Rat → Bool) : Ascending n lo (terms.filter p) := by
  induction terms generalizing lo with
  | nil => trivial
  | cons t terms ih =>
    obtain ⟨hlo, hn, ht, hterms⟩ := h
    rw [List.filter_cons]
    split
    · exact ⟨hlo, hn, ht, ih hterms⟩
    · exact (ih hterms).mono (Nat.le_succ_of_le hlo)

/-- Without the greatest variable, the variables are below it. -/
theorem of_ne (h : Ascending (n + 1) lo terms) (hne : ∀ t ∈ terms, t.1 ≠ n) : Ascending n lo terms := by
  induction terms generalizing lo with
  | nil => trivial
  | cons t terms ih =>
    obtain ⟨hlo, hn, ht, hterms⟩ := h
    rw [List.forall_mem_cons] at hne
    exact ⟨hlo, by have := hne.1; omega, ht, ih hterms hne.2⟩

/-- The value of ascending terms is that of the term of a variable and of the rest. -/
theorem sumAt_eq (h : Ascending n lo terms) (v : Nat) :
    sumAt x terms = (terms.lookup v).getD 0 * x v + sumAt x (terms.filter fun t => t.1 != v) := by
  induction terms generalizing lo with
  | nil => simp
  | cons t terms ih =>
    obtain ⟨i, c⟩ := t
    obtain ⟨-, -, -, hterms⟩ := h
    by_cases hv : i = v
    · subst hv
      have hself : terms.filter (fun t => t.1 != i) = terms :=
        List.filter_eq_self.mpr fun t ht => by simpa using hterms.ne_of_lt (Nat.lt_succ_self i) t ht
      simp [hself]
    · have hv' : (v == i) = false := by simpa using fun h => hv h.symm
      simp only [List.lookup_cons, hv', List.filter_cons, bne_iff_ne, ne_eq, hv, not_false_eq_true, if_true, sumAt_cons,
        ih hterms]
      ring

theorem lookup_of_mem (h : Ascending n lo terms) (hmem : (v, c) ∈ terms) : (terms.lookup v).getD 0 = c ∧ c ≠ 0 := by
  induction terms generalizing lo with
  | nil => cases hmem
  | cons t terms ih =>
    obtain ⟨-, -, ht, hterms⟩ := h
    rcases List.mem_cons.mp hmem with rfl | hmem
    · simpa using ht
    · have hne : (v == t.1) = false := by
        simpa using fun heq => hterms.ne_of_lt (Nat.lt_succ_self t.1) _ hmem heq
      rw [List.lookup_cons, hne]
      exact ih hterms hmem

theorem lookup_eq_none_iff (h : Ascending n lo terms) :
    (terms.lookup v).getD 0 = 0 ↔ ∀ t ∈ terms, t.1 ≠ v := by
  induction terms generalizing lo with
  | nil => simp
  | cons t terms ih =>
    obtain ⟨i, c⟩ := t
    obtain ⟨-, -, hc, hterms⟩ := h
    by_cases hv : i = v
    · subst hv
      simp [hc]
    · have hv' : (v == i) = false := by simpa using fun h => hv h.symm
      simp [List.lookup_cons, hv', ih hterms, hv]

end Ascending

/-! ## Forms -/

namespace Form

variable {f g : Form}

theorem eval_eq (f : Form) (x : Nat → Rat) : f.eval x = sumAt x f.terms + f.constant := by
  obtain ⟨terms, k⟩ := f
  induction terms with
  | nil => simp [eval]
  | cons t terms ih =>
    simp only [eval, List.foldr_cons, sumAt_cons] at ih ⊢
    rw [ih, add_assoc]

theorem eval_addScaled (f : Form) (c : Rat) (g : Form) : (f.addScaled c g).eval x = f.eval x + c * g.eval x := by
  unfold addScaled
  split
  · rename_i hc
    rw [hc, zero_mul, add_zero]
  · simp only [eval_eq, sumAt_addTerms]
    ring

theorem eval_scale (c : Rat) (f : Form) : (f.scale c).eval x = c * f.eval x := by
  rw [scale, eval_addScaled]
  simp [eval, const]

/-- A form in normal form has variables below `n`, in ascending order, with coefficients that are not zero. -/
def IsNormal (n : Nat) (f : Form) : Prop := Ascending n 0 f.terms

theorem IsNormal.addScaled (hf : f.IsNormal n) (hg : g.IsNormal n) (c : Rat) : (f.addScaled c g).IsNormal n := by
  unfold Form.addScaled
  split
  · exact hf
  · rename_i hc
    exact Ascending.addTerms hc hf hg

theorem IsNormal.scale (hf : f.IsNormal n) (c : Rat) : (f.scale c).IsNormal n :=
  IsNormal.addScaled (f := const 0) trivial hf c

/-- The value of a form is that of its term in a variable and of the rest. -/
theorem eval_erase (hf : f.IsNormal n) (v : Nat) (x : Nat → Rat) :
    f.eval x = f.coefficient v * x v + (f.erase v).eval x := by
  rw [eval_eq, eval_eq, hf.sumAt_eq v, add_assoc]
  rfl

theorem eval_congr (h : ∀ t ∈ f.terms, x t.1 = y t.1) : f.eval x = f.eval y := by
  rw [eval_eq, eval_eq, sumAt, sumAt, List.map_congr_left fun t ht => by rw [h t ht]]

theorem IsNormal.eval_congr (hf : f.IsNormal n) (h : ∀ v < n, x v = y v) : f.eval x = f.eval y :=
  Form.eval_congr fun _ ht => h _ (Ascending.lt_of_mem hf ht)

/-- When a variable grows, a form gains its coefficient times the growth. -/
theorem eval_update (hf : f.IsNormal n) (v : Nat) (x : Nat → Rat) (r : Rat) :
    f.eval (Function.update x v r) = f.coefficient v * r + (f.erase v).eval x := by
  rw [eval_erase hf v, Function.update_self]
  congr 1
  refine eval_congr fun t ht => Function.update_of_ne ?_ r x
  simpa using (List.mem_filter.mp ht).2

/-- A coefficient is what the value gains between two points. -/
theorem coefficient_eq (hf : f.IsNormal n) (v : Nat) :
    f.coefficient v = f.eval (Function.update 0 v 1) - f.eval (Function.update 0 v 0) := by
  rw [eval_update hf, eval_update hf]
  ring

theorem coefficient_addScaled (hf : f.IsNormal n) (hg : g.IsNormal n) (c : Rat) (v : Nat) :
    (f.addScaled c g).coefficient v = f.coefficient v + c * g.coefficient v := by
  rw [coefficient_eq (hf.addScaled hg c), coefficient_eq hf, coefficient_eq hg]
  simp only [eval_addScaled]
  ring

theorem coefficient_scale (hf : f.IsNormal n) (c : Rat) (v : Nat) :
    (f.scale c).coefficient v = c * f.coefficient v := by
  rw [scale, coefficient_addScaled (f := const 0) trivial hf]
  simp [coefficient, const]

/-- Without the greatest variable, a form has variables below it. -/
theorem IsNormal.erase (hf : f.IsNormal (n + 1)) : (f.erase n).IsNormal n := by
  refine (Ascending.filter hf _).of_ne fun t ht => ?_
  simpa using (List.mem_filter.mp ht).2

theorem IsNormal.of_coefficient_eq_zero (hf : f.IsNormal (n + 1)) (hn : f.coefficient n = 0) : f.IsNormal n :=
  Ascending.of_ne hf ((Ascending.lookup_eq_none_iff hf).mp hn)

/-! ## Terms -/

theorem isNormal_const (n : Nat) (c : Rat) : (const c).IsNormal n := trivial

theorem isNormal_single (hv : v < n) (c : Rat) : (single v c).IsNormal n := by
  unfold single
  split
  · trivial
  · rename_i hc
    exact ⟨Nat.zero_le v, hv, hc, trivial⟩

theorem isNormal_erase (hf : f.IsNormal n) (v : Nat) : (f.erase v).IsNormal n := Ascending.filter hf _

theorem IsNormal.mono {m : Nat} (hf : f.IsNormal n) (hnm : n ≤ m) : f.IsNormal m := Ascending.mono_right hf hnm

/-- The terms of a form are its coefficients that are not zero. -/
theorem mem_terms_iff (hf : f.IsNormal n) : (v, c) ∈ f.terms ↔ f.coefficient v = c ∧ c ≠ 0 := by
  constructor
  · intro hmem
    exact Ascending.lookup_of_mem hf hmem
  · rintro ⟨rfl, hne⟩
    cases hlookup : f.terms.lookup v with
    | none => exact absurd (by rw [coefficient, hlookup, Option.getD_none]) hne
    | some c =>
      obtain ⟨l, r, hsplit, -⟩ := List.lookup_eq_some_iff.mp hlookup
      rw [coefficient, hlookup, Option.getD_some, hsplit]
      simp

/-- A variable that occurs in a form is one of its variables. -/
theorem IsNormal.lt_of_coefficient_ne_zero (hf : f.IsNormal n) (hv : f.coefficient v ≠ 0) : v < n :=
  Ascending.lt_of_mem hf ((mem_terms_iff hf).mpr ⟨rfl, hv⟩)

/-- A form with the same value everywhere is constant. -/
theorem terms_eq_nil_of_eval (hf : f.IsNormal n) (h : ∀ x, f.eval x = c) : f.terms = [] := by
  by_contra hne
  obtain ⟨⟨v, d⟩, hmem⟩ := List.exists_mem_of_ne_nil _ hne
  obtain ⟨hcoefficient, hd⟩ := (mem_terms_iff hf).mp hmem
  rw [coefficient_eq hf, h, h, sub_self] at hcoefficient
  exact hd hcoefficient.symm

/-- Forms in normal form are equal if their coefficients and their constants are. -/
theorem ext_of_coefficient (hf : f.IsNormal n) (hg : g.IsNormal n)
    (hcoefficient : ∀ v, f.coefficient v = g.coefficient v) (hconstant : f.constant = g.constant) : f = g := by
  have hantisymm : Std.Antisymm fun s t : Nat × Rat => s.1 < t.1 := ⟨fun s t hst hts => absurd hst hts.asymm⟩
  have hirrefl : Std.Irrefl fun s t : Nat × Rat => s.1 < t.1 := ⟨fun s => Nat.lt_irrefl s.1⟩
  have hterms : f.terms = g.terms := by
    refine (Ascending.pairwise hf).eq_of_mem_iff (Ascending.pairwise hg) fun ⟨v, c⟩ => ?_
    rw [mem_terms_iff hf, mem_terms_iff hg, hcoefficient]
  obtain ⟨a, k⟩ := f
  obtain ⟨b, l⟩ := g
  obtain rfl : k = l := hconstant
  obtain rfl : a = b := hterms
  rfl

/-- Where all its variables are zero, a form has its constant as value. -/
theorem eval_eq_constant (h : ∀ t ∈ f.terms, x t.1 = 0) : f.eval x = f.constant := by
  rw [eval_eq, sumAt_eq_zero fun t ht => by rw [h t ht, mul_zero], zero_add]

theorem eval_zero (f : Form) : f.eval 0 = f.constant := eval_eq_constant fun _ _ => rfl

/-- A form in normal form is determined by its values. -/
theorem ext_of_eval (hf : f.IsNormal n) (hg : g.IsNormal n) (h : ∀ x, f.eval x = g.eval x) : f = g := by
  refine ext_of_coefficient hf hg (fun v => ?_) ?_
  · rw [coefficient_eq hf, coefficient_eq hg, h, h]
  · rw [← eval_zero f, ← eval_zero g, h]

theorem coefficient_single (v : Nat) (c : Rat) (u : Nat) : (single v c).coefficient u = if u = v then c else 0 := by
  unfold single coefficient
  split
  · rename_i hc
    simp [hc]
  · by_cases huv : u = v
    · simp [huv]
    · have hne : (u == v) = false := by simpa using huv
      simp [List.lookup_cons, hne, huv]

theorem coefficient_erase (f : Form) (v u : Nat) : (f.erase v).coefficient u = if u = v then 0 else f.coefficient u := by
  obtain ⟨terms, k⟩ := f
  unfold erase coefficient
  induction terms with
  | nil => simp
  | cons t terms ih =>
    obtain ⟨i, c⟩ := t
    by_cases hiv : i = v
    · subst hiv
      by_cases hui : u = i
      · simpa [hui] using ih
      · have hne : (u == i) = false := by simpa using hui
        simpa [List.lookup_cons, hne, hui] using ih
    · by_cases hui : u = i
      · subst hui
        simp [hiv]
      · have hne : (u == i) = false := by simpa using hui
        simpa [List.filter_cons, hiv, List.lookup_cons, hne] using ih

theorem eval_const (c : Rat) (x : Nat → Rat) : (const c).eval x = c := rfl

theorem eval_single (v : Nat) (c : Rat) (x : Nat → Rat) : (single v c).eval x = c * x v := by
  rw [eval_eq, single]
  split <;> simp_all

theorem constant_addScaled (f : Form) (c : Rat) (g : Form) :
    (f.addScaled c g).constant = f.constant + c * g.constant := by
  unfold addScaled
  split
  · rename_i hc
    rw [hc, zero_mul, add_zero]
  · rfl

theorem constant_scale (c : Rat) (f : Form) : (f.scale c).constant = c * f.constant := by
  rw [scale, constant_addScaled]
  exact zero_add _

/-! ## Replaced variables -/

/-- Replacing a variable by a form is adding a multiple of the form to the other terms. -/
theorem substitute_eq (f : Form) (v : Nat) (g : Form) :
    f.substitute v g = (f.erase v).addScaled (f.coefficient v) g := by
  unfold substitute coefficient
  cases hlookup : f.terms.lookup v with
  | none =>
    have hself : f.terms.filter (fun t => t.1 != v) = f.terms :=
      List.filter_eq_self.mpr fun t ht => bne_comm.trans (List.lookup_eq_none_iff.mp hlookup t ht)
    rw [Option.getD_none, addScaled, if_pos rfl, erase, hself]
  | some c => rfl

theorem substitute_of_coefficient_eq_zero (hf : f.IsNormal n) (hv : f.coefficient v = 0) (g : Form) :
    f.substitute v g = f := by
  have hself : f.terms.filter (fun t => t.1 != v) = f.terms :=
    List.filter_eq_self.mpr fun t ht => by simpa using (Ascending.lookup_eq_none_iff hf).mp hv t ht
  rw [substitute_eq, hv, addScaled, if_pos rfl, erase, hself]

section

variable (hf : f.IsNormal n) (hg : g.IsNormal n)

include hf hg

theorem IsNormal.substitute (v : Nat) : (f.substitute v g).IsNormal n := by
  rw [substitute_eq]
  exact (isNormal_erase hf v).addScaled hg _

theorem coefficient_substitute (v u : Nat) :
    (f.substitute v g).coefficient u = (if u = v then 0 else f.coefficient u) + f.coefficient v * g.coefficient u := by
  rw [substitute_eq, coefficient_addScaled (isNormal_erase hf v) hg, coefficient_erase]

end

theorem constant_substitute (f : Form) (v : Nat) (g : Form) :
    (f.substitute v g).constant = f.constant + f.coefficient v * g.constant := by
  rw [substitute_eq, constant_addScaled]
  rfl

/-- Where a variable equals a form, it can be replaced by it. -/
theorem eval_substitute (hf : f.IsNormal n) (h : x v = g.eval x) : (f.substitute v g).eval x = f.eval x := by
  rw [substitute_eq, eval_addScaled, eval_erase hf v, h, add_comm]

variable {w : Nat}

theorem IsNormal.solveFor (hf : f.IsNormal n) (hw : w < n) (v : Nat) : (f.solveFor v w).IsNormal n :=
  (isNormal_single hw _).addScaled (isNormal_erase hf v) _

theorem coefficient_solveFor (hf : f.IsNormal n) (hw : w < n) (v u : Nat) : (f.solveFor v w).coefficient u =
    (if u = w then 1 / f.coefficient v else 0) + -1 / f.coefficient v * if u = v then 0 else f.coefficient u := by
  rw [solveFor, coefficient_addScaled (isNormal_single hw _) (isNormal_erase hf v), coefficient_single,
    coefficient_erase]

theorem constant_solveFor (f : Form) (v w : Nat) : (f.solveFor v w).constant = -f.constant / f.coefficient v := by
  have hsingle : (single w (1 / f.coefficient v)).constant = 0 := rfl
  rw [solveFor, constant_addScaled, hsingle]
  simp only [erase]
  ring

/-- One variable equals a form exactly if another one that occurs in it equals the solved form. -/
theorem eq_eval_solveFor_iff (hf : f.IsNormal n) (hv : f.coefficient v ≠ 0) (w : Nat) (x : Nat → Rat) :
    x v = (f.solveFor v w).eval x ↔ x w = f.eval x := by
  rw [solveFor, eval_addScaled, eval_single, eval_erase hf v x]
  field_simp
  constructor <;> intro h <;> linarith

end Form

end RectLayout.LinearProgram
