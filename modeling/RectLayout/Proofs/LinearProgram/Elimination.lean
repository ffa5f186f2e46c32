import Mathlib.Algebra.Order.Field.Basic
import Mathlib.Tactic.Linarith
import RectLayout.LinearProgram.Elimination
import RectLayout.Proofs.LinearProgram.Form

/-!
# Elimination decides

A system without a variable has exactly the solutions of the system with it, less their values for that variable. A
solution is left with it because every new form is a positive combination of old ones (`Solves.eliminate`), and it comes
back with the chosen value because each lower bound was set against each upper one (`solves_choose`). So `solve?` gives a
solution whenever there is one (`solve?_eq_some`, `solve?_eq_none`), by induction on the variables, and demands that are
added one by one end at the first that cannot be met with those before it (`decideFrom_eq_ok`, `decideFrom_eq_error`).
-/

namespace RectLayout.LinearProgram

variable {n : Nat} {x y : Nat → Rat} {fs : List Form}

/-! ## Demands that can be met -/

/-- The demands can be met together. -/
def Meetable (demands : List Demand) : Prop := ∃ x, ∀ d ∈ demands, d.holds x

/-- The demands before demand `k` can be met together, but not with it. -/
structure IsBlamed (demands : List Demand) (k : Nat) : Prop where
  lt_length : k < demands.length
  meetable : Meetable (demands.take k)
  not_meetable : ¬ Meetable (demands.take (k + 1))

theorem Demand.holds_iff {d : Demand} :
    d.holds x ↔ match d.kind with | .equality => d.form.eval x = 0 | .inequality => 0 ≤ d.form.eval x := by
  unfold holds
  cases d.kind <;> simp

namespace Elimination

/-- None of the forms is negative at the point. -/
def Solves (x : Nat → Rat) (fs : List Form) : Prop := ∀ f ∈ fs, 0 ≤ f.eval x

/-! ## Combinations -/

variable {l u f : Form}

/-- A combination has the value of its two bounds with the multiples that make the variable vanish. -/
theorem eval_combine (hl : l.IsNormal (n + 1)) (hu : u.IsNormal (n + 1)) (x : Nat → Rat) :
    (combine n l u).eval x = -u.coefficient n * l.eval x + l.coefficient n * u.eval x := by
  have hsum := (hl.scale (-u.coefficient n)).addScaled hu (l.coefficient n)
  have hvanish : ((l.scale (-u.coefficient n)).addScaled (l.coefficient n) u).coefficient n = 0 := by
    rw [Form.coefficient_addScaled (hl.scale _) hu, Form.coefficient_scale hl]
    ring
  have herase := Form.eval_erase hsum n x
  rw [hvanish, zero_mul, zero_add] at herase
  rw [combine, ← herase, Form.eval_addScaled, Form.eval_scale]

theorem isNormal_combine (hl : l.IsNormal (n + 1)) (hu : u.IsNormal (n + 1)) : (combine n l u).IsNormal n :=
  Form.IsNormal.erase ((hl.scale _).addScaled hu _)

theorem mem_lowerBounds_iff : l ∈ lowerBounds n fs ↔ l ∈ fs ∧ 0 < l.coefficient n := by
  simp [lowerBounds]

theorem mem_upperBounds_iff : u ∈ upperBounds n fs ↔ u ∈ fs ∧ u.coefficient n < 0 := by
  simp [upperBounds]

theorem mem_eliminate_iff : f ∈ eliminate n fs ↔ (f ∈ fs ∧ f.coefficient n = 0) ∨
    ∃ l ∈ lowerBounds n fs, ∃ u ∈ upperBounds n fs, combine n l u = f := by
  simp [eliminate]

section

variable (hfs : ∀ f ∈ fs, f.IsNormal (n + 1))

include hfs

theorem isNormal_eliminate : ∀ f ∈ eliminate n fs, f.IsNormal n := by
  intro f hf
  rcases mem_eliminate_iff.mp hf with ⟨hmem, hzero⟩ | ⟨l, hl, u, hu, rfl⟩
  · exact (hfs f hmem).of_coefficient_eq_zero hzero
  · exact isNormal_combine (hfs l (mem_lowerBounds_iff.mp hl).1) (hfs u (mem_upperBounds_iff.mp hu).1)

/-- A solution of a system solves the system without a variable. -/
theorem Solves.eliminate (h : Solves x fs) : Solves x (eliminate n fs) := by
  intro f hf
  rcases mem_eliminate_iff.mp hf with ⟨hmem, -⟩ | ⟨l, hl, u, hu, rfl⟩
  · exact h f hmem
  · obtain ⟨hl, hlpos⟩ := mem_lowerBounds_iff.mp hl
    obtain ⟨hu, huneg⟩ := mem_upperBounds_iff.mp hu
    rw [eval_combine (hfs l hl) (hfs u hu)]
    exact add_nonneg (mul_nonneg (by linarith) (h l hl)) (mul_nonneg hlpos.le (h u hu))

end

/-! ## The chosen value -/

/-- With a value for the variable that is not below its bound, a lower bound is not negative. -/
theorem bound_le_iff (hl : 0 < l.coefficient n) {c : Rat} :
    bound n x l ≤ c ↔ 0 ≤ l.coefficient n * c + (l.erase n).eval x := by
  rw [bound, div_le_iff₀ hl, mul_comm c]
  constructor <;> intro h <;> linarith

/-- With a value for the variable that is not above its bound, an upper bound is not negative. -/
theorem le_bound_iff (hu : u.coefficient n < 0) {c : Rat} :
    c ≤ bound n x u ↔ 0 ≤ u.coefficient n * c + (u.erase n).eval x := by
  rw [bound, le_div_iff_of_neg hu, mul_comm c]
  constructor <;> intro h <;> linarith

/-- A combination that is not negative leaves room between its bounds. -/
theorem bound_le_bound (hl : l.IsNormal (n + 1)) (hu : u.IsNormal (n + 1)) (hlpos : 0 < l.coefficient n)
    (huneg : u.coefficient n < 0) (h : 0 ≤ (combine n l u).eval x) : bound n x l ≤ bound n x u := by
  rw [eval_combine hl hu, Form.eval_erase hl n, Form.eval_erase hu n] at h
  rw [bound_le_iff hlpos]
  -- at the upper bound the upper form is zero
  have hzero : u.coefficient n * bound n x u = -(u.erase n).eval x := mul_div_cancel₀ _ huneg.ne
  have hprod : 0 ≤ -u.coefficient n * (l.coefficient n * bound n x u + (l.erase n).eval x) := by
    linear_combination h + l.coefficient n * hzero
  exact nonneg_of_mul_nonneg_right hprod (by linarith)

/-- If every lower bound is below every upper bound, the chosen value is between them. -/
theorem choose_between (h : ∀ l ∈ lowerBounds n fs, ∀ u ∈ upperBounds n fs, bound n x l ≤ bound n x u) :
    (∀ l ∈ lowerBounds n fs, bound n x l ≤ choose n fs x) ∧
      ∀ u ∈ upperBounds n fs, choose n fs x ≤ bound n x u := by
  unfold choose
  cases hlower : (lowerBounds n fs).map (bound n x) with
  | cons b bs =>
    obtain ⟨hmem, hle⟩ := List.max?_eq_some_iff.mp
      (show (b :: bs).max? = some (bs.foldl (fun x y => if x ≤ y then y else x) b) from rfl)
    rw [← hlower] at hmem hle
    obtain ⟨l, hl, hlb⟩ := List.mem_map.mp hmem
    refine ⟨fun l hl => hle _ (List.mem_map_of_mem hl), fun u hu => ?_⟩
    dsimp only
    rw [← hlb]
    exact h l hl u hu
  | nil =>
    rw [List.map_eq_nil_iff.mp hlower]
    refine ⟨List.forall_mem_nil _, fun u hu => ?_⟩
    cases hupper : (upperBounds n fs).map (bound n x) with
    | nil =>
      rw [List.map_eq_nil_iff.mp hupper] at hu
      cases hu
    | cons b bs =>
      obtain ⟨-, hle⟩ := List.min?_eq_some_iff.mp
        (show (b :: bs).min? = some (bs.foldl (fun x y => if x ≤ y then x else y) b) from rfl)
      exact hle _ (hupper ▸ List.mem_map_of_mem hu)

/-- With the chosen value, a solution of the system without a variable solves the system. -/
theorem solves_choose (hfs : ∀ f ∈ fs, f.IsNormal (n + 1)) (h : Solves x (eliminate n fs)) :
    Solves (Function.update x n (choose n fs x)) fs := by
  have hroom : ∀ l ∈ lowerBounds n fs, ∀ u ∈ upperBounds n fs, bound n x l ≤ bound n x u := by
    intro l hl u hu
    have hcombine := h _ (mem_eliminate_iff.mpr (.inr ⟨l, hl, u, hu, rfl⟩))
    obtain ⟨hl, hlpos⟩ := mem_lowerBounds_iff.mp hl
    obtain ⟨hu, huneg⟩ := mem_upperBounds_iff.mp hu
    exact bound_le_bound (hfs l hl) (hfs u hu) hlpos huneg hcombine
  obtain ⟨hlower, hupper⟩ := choose_between hroom
  intro f hf
  rw [Form.eval_update (hfs f hf)]
  rcases lt_trichotomy (f.coefficient n) 0 with hneg | hzero | hpos
  · exact (le_bound_iff hneg).mp (hupper f (mem_upperBounds_iff.mpr ⟨hf, hneg⟩))
  · have hvalue := h f (mem_eliminate_iff.mpr (.inl ⟨hf, hzero⟩))
    rw [Form.eval_erase (hfs f hf) n, hzero, zero_mul, zero_add] at hvalue
    rwa [hzero, zero_mul, zero_add]
  · exact (bound_le_iff hpos).mp (hlower f (mem_lowerBounds_iff.mpr ⟨hf, hpos⟩))

/-! ## Solutions of systems -/

theorem solve?_eq_some (hfs : ∀ f ∈ fs, f.IsNormal n) (h : solve? n fs = some x) : Solves x fs := by
  induction n generalizing fs x with
  | zero =>
    unfold solve? at h
    split at h
    · rename_i hconstant
      intro f hf
      have hterms : f.terms = [] := Ascending.eq_nil (hfs f hf)
      rw [Form.eval_eq, hterms, sumAt_nil, zero_add]
      simpa using List.all_eq_true.mp hconstant f hf
    · cases h
  | succ n ih =>
    obtain ⟨y, hy, rfl⟩ := Option.map_eq_some_iff.mp h
    have heq : (fun i => if i = n then choose n fs y else y i) = Function.update y n (choose n fs y) :=
      funext fun i => (Function.update_apply y n _ i).symm
    rw [heq]
    exact solves_choose hfs (ih (isNormal_eliminate hfs) hy)

theorem solve?_eq_none (hfs : ∀ f ∈ fs, f.IsNormal n) (h : solve? n fs = none) (x : Nat → Rat) : ¬ Solves x fs := by
  intro hx
  induction n generalizing fs with
  | zero =>
    unfold solve? at h
    split at h
    · cases h
    · rename_i hconstant
      refine hconstant (List.all_eq_true.mpr fun f hf => ?_)
      have hvalue := hx f hf
      rw [Form.eval_eq, Ascending.eq_nil (hfs f hf), sumAt_nil, zero_add] at hvalue
      simpa using hvalue
  | succ n ih =>
    exact ih (isNormal_eliminate hfs) (Option.map_eq_none_iff.mp h) (hx.eliminate hfs)

/-! ## Demands one by one -/

variable {demands met : List Demand}

theorem solves_forms_iff : Solves x (demands.flatMap forms) ↔ ∀ d ∈ demands, d.holds x := by
  rw [Solves, List.forall_mem_flatMap]
  refine forall₂_congr fun d _ => ?_
  rw [Demand.holds_iff, forms]
  cases d.kind with
  | equality =>
    simp only [List.forall_mem_cons, Form.eval_scale, List.not_mem_nil, false_imp_iff, implies_true, and_true]
    constructor
    · rintro ⟨h₁, h₂⟩
      linarith
    · intro h
      rw [h]
      norm_num
  | inequality => simp

theorem isNormal_forms (h : ∀ d ∈ demands, d.form.IsNormal n) : ∀ f ∈ demands.flatMap forms, f.IsNormal n := by
  rw [List.forall_mem_flatMap]
  intro d hd
  rw [forms]
  cases d.kind with
  | equality => simpa using ⟨h d hd, (h d hd).scale (-1)⟩
  | inequality => simpa using h d hd

/-- Elimination meets all demands, if it ends with a point. -/
theorem decideFrom_eq_ok (hmet : ∀ d ∈ met, d.holds x) (hnormal : ∀ d ∈ met ++ demands, d.form.IsNormal n)
    (h : decideFrom n met x demands = .ok y) : ∀ d ∈ met ++ demands, d.holds y := by
  induction demands generalizing met x with
  | nil =>
    rw [List.append_nil]
    exact Except.ok.inj h ▸ hmet
  | cons d ds ih =>
    rw [List.append_cons] at hnormal ⊢
    unfold decideFrom at h
    split at h
    · rename_i z hz
      exact ih (solves_forms_iff.mp (solve?_eq_some (isNormal_forms fun e he =>
        hnormal e (List.mem_append_left ds he)) hz)) hnormal h
    · cases h

/-- Elimination ends at the first demand that cannot be met together with those before it, if it ends at one. -/
theorem decideFrom_eq_error (hmet : ∀ d ∈ met, d.holds x) (hnormal : ∀ d ∈ met ++ demands, d.form.IsNormal n)
    {k : Nat} (h : decideFrom n met x demands = .error (k, y)) : IsBlamed (met ++ demands) k := by
  induction demands generalizing met x with
  | nil => cases h
  | cons d ds ih =>
    have hforms : ∀ f ∈ (met ++ [d]).flatMap forms, f.IsNormal n := isNormal_forms fun e he => by
      rw [List.append_cons] at hnormal
      exact hnormal e (List.mem_append_left ds he)
    unfold decideFrom at h
    split at h
    · rename_i z hz
      rw [List.append_cons] at hnormal ⊢
      exact ih (solves_forms_iff.mp (solve?_eq_some hforms hz)) hnormal h
    · rename_i hnone
      obtain ⟨rfl, -⟩ := Prod.mk.inj (Except.error.inj h)
      refine ⟨by simp, ⟨x, by simpa using hmet⟩, ?_⟩
      rw [List.append_cons, List.take_left' (by simp)]
      rintro ⟨z, hz⟩
      exact solve?_eq_none hforms hnone z (solves_forms_iff.mpr hz)

end Elimination

end RectLayout.LinearProgram
