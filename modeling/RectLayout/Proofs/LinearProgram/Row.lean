import Mathlib.Algebra.Order.Field.Basic
import RectLayout.Proofs.LinearProgram.Descent

/-!
# Functions that must be zero

A function that must be zero is imposed on a dictionary if the points that are left are those at which it is zero
(`Dictionary.Imposes`). A tableau takes it in one of four ways: an unknown becomes basic (`Shows.takes_of_unknown`), or a
new column that may grow (`Shows.takes_of_own`), or a new mark if only marks are left (`Shows.takes_of_marks`), or the
function gets a column for its value, which the descent lowers as far as it can (`Shows.takes_addWithColumn`). If the
value ends at zero then the column is dropped, which holds it there (`Descending.settle`,
`Dictionary.Alike.imposes_drop`). If not, the function is zero nowhere, unless the descent made all the pivots that it may
make (`Takes`, `Shows.takes_placeRow`).
-/

namespace RectLayout.LinearProgram

open Tableau

variable {t t' : Tableau Rat} {z : Combination Rat} {d d' : Dictionary} {m v w : Nat} {f g : Form} {x y : Nat → Rat}

namespace Dictionary

/-! ## Points of dictionaries with one more variable -/

theorem Holds.congr (h : d.Solved m) (hy : d.Holds y) (heq : ∀ v < m, x v = y v) : d.Holds x := by
  intro r hr
  rw [heq _ (h.lt r hr), (h.reduced r hr).normal.eval_congr heq]
  exact hy r hr

/-- The points of a dictionary are determined by its variables. -/
theorem Admits.congr (h : d.Solved d.bounds.size) (hy : d.Admits y) (heq : ∀ v < d.bounds.size, x v = y v) :
    d.Admits x where
  holds := hy.holds.congr h heq
  zero v hv := by
    rw [heq v (lt_size_of_bound (hv.trans_ne (by decide)))]
    exact hy.zero v hv
  nonneg v hv := by
    rw [heq v (lt_size_of_bound (hv.trans_ne (by decide)))]
    exact hy.nonneg v hv

theorem admits_fresh_iff {b : Bound} : (d.fresh b).2.Admits y ↔
    d.Admits y ∧ (b = .zero → y d.bounds.size = 0) ∧ (b = .nonNegative → 0 ≤ y d.bounds.size) := by
  have hself : (d.fresh b).2.bound d.bounds.size = b := by rw [bound_fresh, if_pos rfl]
  have hother : ∀ {v : Nat}, d.bound v ≠ .free → (d.fresh b).2.bound v = d.bound v := fun hv => by
    rw [bound_fresh, if_neg (lt_size_of_bound hv).ne]
  constructor
  · rintro ⟨hholds, hzero, hnonneg⟩
    refine ⟨⟨hholds, fun v hv => hzero v ?_, fun v hv => hnonneg v ?_⟩, fun hb => hzero _ (hself.trans hb),
      fun hb => hnonneg _ (hself.trans hb)⟩
    · rw [hother (hv.trans_ne (by decide)), hv]
    · rw [hother (hv.trans_ne (by decide)), hv]
  · rintro ⟨⟨hholds, hzero, hnonneg⟩, hzero', hnonneg'⟩
    refine ⟨hholds, fun v hv => ?_, fun v hv => ?_⟩
    · rw [bound_fresh] at hv
      split at hv
      · rename_i heq
        exact heq ▸ hzero' hv
      · exact hzero v hv
    · rw [bound_fresh] at hv
      split at hv
      · rename_i heq
        exact heq ▸ hnonneg' hv
      · exact hnonneg v hv

/-- The points of `d'` are those of `d` at which a form is zero, up to variables that `d` does not have. -/
structure Imposes (d : Dictionary) (f : Form) (d' : Dictionary) : Prop where
  size_le : d.bounds.size ≤ d'.bounds.size
  bound : ∀ v < d.bounds.size, d'.bound v = d.bound v
  solved : d'.Solved d'.bounds.size
  within : d'.Within
  of_admits : ∀ y, d'.Admits y → d.Admits y ∧ f.eval y = 0
  exists_admits : ∀ y, d.Admits y → f.eval y = 0 → ∃ y', (∀ v < d.bounds.size, y' v = y v) ∧ d'.Admits y'

/-- A variable that occurs in the form becomes basic. -/
theorem imposes_install (h : d.Solved d.bounds.size) (hf : d.Reduced d.bounds.size f) (hv : f.coefficient v ≠ 0)
    (hwithin : (d.install v (f.isolate v)).Within) : Imposes d f (d.install v (f.isolate v)) := by
  have hnew : ∀ r ∈ d.rows, r.1 ≠ v := by
    rintro r hr rfl
    exact hv (hf.apart r hr)
  have hisolate : d.Reduced d.bounds.size (f.isolate v) := by
    refine ⟨Form.isNormal_isolate hf.normal v, fun r hr => ?_⟩
    rw [Form.coefficient_isolate hf.normal, hf.apart r hr, ite_self, mul_zero]
  have hself : (f.isolate v).coefficient v = 0 := by rw [Form.coefficient_isolate hf.normal, if_pos rfl, mul_zero]
  have hholds : ∀ y, (d.install v (f.isolate v)).Holds y ↔ f.eval y = 0 ∧ d.Holds y := fun y => by
    rw [h.holds_install_iff, Form.eq_eval_isolate_iff hf.normal hv]
  refine ⟨le_rfl, fun _ _ => rfl, h.install hisolate hself hnew (hf.normal.lt_of_coefficient_ne_zero hv), hwithin,
    fun y hy => ?_, fun y hy hzero => ⟨y, fun _ _ => rfl, (hholds y).mpr ⟨hzero, hy.holds⟩, hy.zero, hy.nonneg⟩⟩
  obtain ⟨hzero, hy'⟩ := (hholds y).mp hy.holds
  exact ⟨⟨hy', hy.zero, hy.nonneg⟩, hzero⟩

/-! ## Variables that are dropped -/

/-- The dictionary without terms in a variable, which then stays at zero. -/
def drop (d : Dictionary) (w : Nat) : Dictionary := { d with rows := d.rows.map fun r => (r.1, r.2.erase w) }

theorem Solved.drop (h : d.Solved m) (w : Nat) : (d.drop w).Solved m := by
  refine ⟨List.forall_mem_map.mpr fun r hr => ⟨Form.isNormal_erase (h.reduced r hr).normal w, ?_⟩,
    List.forall_mem_map.mpr h.lt, ?_⟩
  · refine List.forall_mem_map.mpr fun s hs => ?_
    rw [Form.coefficient_erase, (h.reduced r hr).apart s hs, ite_self]
  · rw [Dictionary.drop, List.map_map]
    exact h.nodup

theorem Within.drop (h : d.Within) (w : Nat) : (d.drop w).Within := by
  refine List.forall_mem_map.mpr fun r hr => ⟨(h r hr).not_zero, (h r hr).nonneg, fun hbound u hu => ?_⟩
  rw [Form.coefficient_erase, (h r hr).confined hbound u hu, ite_self]

theorem Solved.holds_drop_iff (h : d.Solved m) (hw : ∀ r ∈ d.rows, r.1 ≠ w) :
    (d.drop w).Holds y ↔ d.Holds (Function.update y w 0) := by
  unfold Holds
  rw [Dictionary.drop, List.forall_mem_map]
  refine forall₂_congr fun r hr => ?_
  rw [Function.update_of_ne (hw r hr), Form.eval_update (h.reduced r hr).normal, mul_zero, zero_add]

/-- Dropping a variable holds it at zero. -/
theorem Solved.admits_drop_iff (h : d.Solved m) (hw : ∀ r ∈ d.rows, r.1 ≠ w) (hbound : d.bound w = .nonNegative) :
    (d.drop w).Admits y ↔ d.Admits (Function.update y w 0) ∧ 0 ≤ y w := by
  have hne : ∀ {v : Nat}, v ≠ w → Function.update y w 0 v = y v := fun hv => Function.update_of_ne hv 0 y
  constructor
  · rintro ⟨hholds, hzero, hnonneg⟩
    refine ⟨⟨(h.holds_drop_iff hw).mp hholds, fun v hv => ?_, fun v hv => ?_⟩, hnonneg w hbound⟩
    · rw [hne, hzero v hv]
      rintro rfl
      cases hv.symm.trans hbound
    · by_cases hvw : v = w
      · rw [hvw, Function.update_self]
      · rw [hne hvw]
        exact hnonneg v hv
  · rintro ⟨⟨hholds, hzero, hnonneg⟩, hw'⟩
    refine ⟨(h.holds_drop_iff hw).mpr hholds, fun v hv => ?_, fun v hv => ?_⟩
    · rw [← hne, hzero v hv]
      rintro rfl
      cases hv.symm.trans hbound
    · by_cases hvw : v = w
      · rwa [hvw]
      · rw [← hne hvw]
        exact hnonneg v hv

end Dictionary

open Dictionary

/-- The tableau without a column is the dictionary without the variable. -/
theorem Shows.drop (h : Shows t d) (w : Nat) :
    Shows { t with
      rows := t.rows.map fun (v, g) => (v, g.erase (d.column w)), cost := t.cost.erase (d.column w) } (d.drop w) where
  next := h.next
  rows := by
    rw [List.filter_map]
    simp only [Function.comp_def]
    rw [h.rows, Dictionary.drop, List.map_map, List.map_map]
    exact List.map_congr_left fun r _ => congrArg (Prod.mk _) (erase_combination r.2 w)
  marks := List.forall_mem_map.mpr fun r hr hmark =>
    ⟨(h.marks r hr hmark).1, fun c hc => (h.marks r hr hmark).2 c (List.mem_of_mem_filter hc)⟩
  cost := by
    rw [h.cost]
    rfl

theorem Shows.insert (h : Shows t d) (hv : d.bound v ≠ .zero) (f : Form) :
    Shows { t with rows := (d.column v, d.combination f) :: t.rows } (d.insert v f) where
  next := h.next
  rows := by
    have hrole : (d.column v).role ≠ .mark := role_column_eq_mark_iff.not.mpr hv
    rw [List.filter_cons_of_pos (by simpa using hrole), h.rows]
    rfl
  marks := List.forall_mem_cons.mpr ⟨fun hmark => absurd hmark (role_column_eq_mark_iff.not.mpr hv), h.marks⟩
  cost := h.cost

/-! ## A column for the value of a function -/

/-- The descent for a function makes all the pivots that it may make. -/
def Tableau.Spent {α : Type} [Scalar α] (t : Tableau α) (f : Combination α) : Prop :=
  ∃ t' z', Descends budget (t.withColumn f).2 f t' z'

theorem Tableau.addWithColumn_eq {α : Type} [Scalar α] (t : Tableau α) (f : Combination α) : t.addWithColumn f =
    (descend Tableau.budget (t.withColumn f).2 f >>= fun r => r.1.settle (t.withColumn f).1 r.2) := rfl

/-- What comes of a function that must be zero. -/
inductive Takes (t : Tableau Rat) (d : Dictionary) (f : Form) : Except Refusal (Tableau Rat) → Prop
  | imposed {t' : Tableau Rat} {d' : Dictionary} (hshows : Shows t' d') (himposes : d.Imposes f d') :
      Takes t d f (.ok t')
  | contradicted (hnot : ∀ y, d.Admits y → f.eval y ≠ 0) : Takes t d f (.error .contradiction)
  | spent (hspent : t.Spent (d.combination f).oriented) : Takes t d f (.error .contradiction)

/-- The dictionary with a variable for the value of a form. -/
def Dictionary.withVariable (d : Dictionary) (f : Form) : Dictionary := (d.fresh .nonNegative).2.insert d.bounds.size f

namespace Dictionary

theorem bound_withVariable (d : Dictionary) (f : Form) (v : Nat) :
    (d.withVariable f).bound v = if v = d.bounds.size then .nonNegative else d.bound v := bound_fresh d .nonNegative v

theorem size_withVariable (d : Dictionary) (f : Form) : (d.withVariable f).bounds.size = d.bounds.size + 1 := by
  simp [withVariable, insert, fresh]

theorem holds_withVariable_iff : (d.withVariable f).Holds y ↔ y d.bounds.size = f.eval y ∧ d.Holds y :=
  holds_insert_iff

theorem admits_withVariable_iff : (d.withVariable f).Admits y ↔
    d.Admits y ∧ 0 ≤ y d.bounds.size ∧ y d.bounds.size = f.eval y := by
  have hfresh : (d.withVariable f).Admits y ↔ (d.fresh .nonNegative).2.Admits y ∧ y d.bounds.size = f.eval y := by
    constructor
    · rintro ⟨hholds, hzero, hnonneg⟩
      exact ⟨⟨(holds_withVariable_iff.mp hholds).2, hzero, hnonneg⟩, (holds_withVariable_iff.mp hholds).1⟩
    · rintro ⟨⟨hholds, hzero, hnonneg⟩, hvalue⟩
      exact ⟨holds_withVariable_iff.mpr ⟨hvalue, hholds⟩, hzero, hnonneg⟩
  rw [hfresh, admits_fresh_iff]
  simp [and_assoc]

theorem formOf_withVariable (d : Dictionary) (f : Form) : (d.withVariable f).formOf d.bounds.size = f := by
  rw [formOf, withVariable, insert, List.lookup_cons_self, Option.getD_some]

end Dictionary

section

variable (hsolved : d.Solved d.bounds.size) (hwithin : d.Within) (hf : d.Reduced d.bounds.size f)

include hsolved hwithin hf

/-- The descent starts with a column whose value is not negative. -/
theorem Shows.descending_withColumn (h : Shows t d) (hconfined : d.Confined f) (hnonneg : 0 ≤ f.constant) :
    (t.withColumn (d.combination f)).1 = (d.withVariable f).column d.bounds.size ∧
      Descending d.bounds.size (d.bounds.size + 1) (t.withColumn (d.combination f)).2 (d.combination f)
        (d.withVariable f) := by
  obtain ⟨hcolumn, hshows⟩ := h.fresh hsolved .nonNegative
  have hbound : (d.withVariable f).bound d.bounds.size = .nonNegative := by rw [bound_withVariable, if_pos rfl]
  have hcombination : (d.fresh .nonNegative).2.combination f = d.combination f :=
    combination_fresh hf.normal .nonNegative
  have hinsert : Shows (t.withColumn (d.combination f)).2 (d.withVariable f) := by
    have hne : (d.withVariable f).bound d.bounds.size ≠ .zero := hbound.trans_ne (by decide)
    have hinsert := hshows.insert (v := d.bounds.size) hne f
    rw [← hcolumn, hcombination] at hinsert
    exact hinsert
  refine ⟨hcolumn, hinsert, (hsolved.fresh .nonNegative).insert ⟨hf.normal, hf.apart⟩, ?_, Nat.lt_succ_self _, hbound,
    ?_⟩
  · refine List.forall_mem_cons.mpr ⟨⟨hbound.trans_ne (by decide), fun _ => hnonneg, fun _ => ?_⟩, fun r hr => ?_⟩
    · exact hconfined.fresh (b := .nonNegative) (by decide)
    · exact (hwithin.fresh hsolved (b := .nonNegative) (by decide) r hr).of_bounds rfl
  · rw [formOf_withVariable]
    exact hcombination.symm

/-- A variable that is not basic moves the form in which it occurs. -/
theorem exists_holds_withVariable (hv : d.bound v = .nonNegative) (c : Rat) : ∃ y, (d.withVariable f).Holds y ∧
    (∀ u, (d.withVariable f).bound u = .zero → y u = 0) ∧ y d.bounds.size = f.coefficient v * c + f.constant := by
  obtain ⟨y, hy, hfree⟩ := hsolved.exists_holds (Function.update 0 v c)
  have hagree : ∀ u < d.bounds.size, Function.update y d.bounds.size (f.eval y) u = y u := fun u hu =>
    Function.update_of_ne hu.ne _ _
  refine ⟨Function.update y d.bounds.size (f.eval y), holds_withVariable_iff.mpr ⟨?_, hy.congr hsolved hagree⟩,
    fun u hu => ?_, ?_⟩
  · rw [Function.update_self, hf.normal.eval_congr hagree]
  · rw [bound_withVariable] at hu
    split at hu
    · cases hu
    · rename_i hne
      have hbasic : ∀ r ∈ d.rows, r.1 ≠ u := fun r hr heq => (hwithin r hr).not_zero (heq ▸ hu)
      have huv : u ≠ v := by
        rintro rfl
        cases hu.symm.trans hv
      rw [Function.update_of_ne hne, hfree u hbasic, Function.update_of_ne huv, Pi.zero_apply]
  · rw [Function.update_self, hf.eval_congr hfree, Form.eval_update hf.normal, Form.eval_zero, Form.erase]

/-- If a form depends on a variable that may grow, then it does so whichever variables are basic. -/
theorem exists_grows_of_mem (halike : (d.withVariable f).Alike d') (hwithin' : d'.Within)
    (hmem : (d.bounds.size, g) ∈ d'.rows) (hnormal : g.IsNormal m) (hv : d.bound v = .nonNegative)
    (hfv : f.coefficient v ≠ 0) : ∃ u, g.coefficient u ≠ 0 ∧ d'.bound u = .nonNegative := by
  by_contra hnone
  have hself : d'.bound d.bounds.size = .nonNegative := by rw [halike.bound_eq, bound_withVariable, if_pos rfl]
  -- the value of `f` is the constant of `g`, whatever the value of `v` is
  have hconstant : ∀ c : Rat, f.coefficient v * c + f.constant = g.constant := by
    intro c
    obtain ⟨y, hy, hzero, hvalue⟩ := exists_holds_withVariable hsolved hwithin hf hv c
    have hterms : ∀ p ∈ g.terms, y p.1 = 0 := fun p hp => by
      have hbound := ((hwithin' _ hmem).confined hself).nonNegative_or_zero hnormal hp
      obtain ⟨hcoefficient, hne⟩ := (Form.mem_terms_iff hnormal).mp hp
      rw [← hcoefficient] at hne
      exact hzero _ ((halike.bound_eq p.1).symm.trans (hbound.resolve_left fun hgrows => hnone ⟨p.1, hne, hgrows⟩))
    rw [← hvalue, (halike.holds_iff y).mpr hy _ hmem, Form.eval_eq_constant hterms]
  have hone := hconstant 1
  rw [← hconstant 0] at hone
  exact hfv (by linarith)

end

theorem Dictionary.role_column_iff_nonNegative :
    (d.column v).role = .slack ∨ (d.column v).role = .deviation ↔ d.bound v = .nonNegative := by
  unfold column
  cases d.bound v <;> simp [Bound.role]

/-- A cell of a variable that may grow is found if there is one. -/
theorem exists_find?_grows (hg : g.IsNormal m) (h : ∃ u, g.coefficient u ≠ 0 ∧ d.bound u = .nonNegative) :
    ∃ v, ((d.combination g).cells.find? fun (u, _) => u.role = .slack ∨ u.role = .deviation) =
        some (d.column v, g.coefficient v) ∧ g.coefficient v ≠ 0 ∧ d.bound v = .nonNegative := by
  cases hfind : (d.combination g).cells.find? fun (u, _) => u.role = .slack ∨ u.role = .deviation with
  | none =>
    obtain ⟨u, hne, hgrows⟩ := h
    have hnot := not_of_find?_cells hg hfind hne
    simp [role_column_iff_nonNegative, hgrows] at hnot
  | some cell =>
    obtain ⟨v, rfl, hne, hv⟩ := exists_of_find?_cells hg hfind
    simp only [decide_eq_true_eq, role_column_iff_nonNegative] at hv
    exact ⟨v, rfl, hne, hv⟩

/-- Bringing the column to zero: it is exchanged for a column that may grow, unless it is not basic. -/
theorem Descending.settle (h : Descending w m t z d)
    (hgrows : ∀ g, (w, g) ∈ d.rows → ∃ u, g.coefficient u ≠ 0 ∧ d.bound u = .nonNegative) :
    ∃ t' d', d.Alike d' ∧ d'.Solved m ∧ (∀ r ∈ d'.rows, r.1 ≠ w) ∧ (z.constant = 0 → d'.Within) ∧ Shows t' (d'.drop w) ∧
      t.settle (d.column w) z = if z.constant = 0 then .ok t' else .error .contradiction := by
  have hnegligible : ∀ a b : Except Refusal (Tableau Rat),
      (if Combination.isNegligible z.constant then a else b) = if z.constant = 0 then a else b := fun a b => by
    simp only [isNegligible_iff]
  have hrow := h.shows.row?_eq (v := w) (h.bound.trans_ne (by decide))
  cases hlookup : d.rows.lookup w with
  | none =>
    refine ⟨_, d, .refl d, h.solved, fun r hr heq => ?_, fun _ => h.within, h.shows.drop w, ?_⟩
    · rw [List.lookup_eq_none_iff] at hlookup
      simpa [heq] using hlookup r hr
    · rw [hlookup] at hrow
      rw [Tableau.settle, hrow]
      exact hnegligible _ _
  | some g =>
    have hmem := mem_of_lookup hlookup
    have hz : z.constant = g.constant := by rw [h.eq, constant_combination, formOf, hlookup, Option.getD_some]
    obtain ⟨v, hfind, hne, hv⟩ := exists_find?_grows (h.solved.reduced _ hmem).normal (hgrows g hmem)
    rw [hlookup, Option.map_some] at hrow
    rw [Tableau.settle, hrow]
    dsimp only
    rw [hfind]
    have hvw := h.solved.ne_of_coefficient_ne_zero hmem hne _ hmem
    have hexchange := h.shows.exchange h.solved hmem hne (hv.trans_ne (by decide))
    refine ⟨_, d.exchange v w g, ⟨rfl, fun y => holds_exchange_iff h.solved hmem hne⟩,
      h.solved.exchange hmem hne, ?_, fun hzero => ?_, hexchange.drop w, hnegligible _ _⟩
    · rw [exchange_eq_install, forall_mem_install]
      exact ⟨hvw.symm, fun r hr => (mem_rows_without_iff.mp hr).2⟩
    · exact within_exchange_of_constant_eq_zero h.solved hmem h.within hv h.bound (hz.symm.trans hzero)

section

variable (hsolved : d.Solved d.bounds.size) (hf : d.Reduced d.bounds.size f)

include hsolved hf

/-- Holding the value of a form at zero leaves the points at which it is zero. -/
theorem Dictionary.Alike.imposes_drop (halike : (d.withVariable f).Alike d') (hsolved' : d'.Solved (d.bounds.size + 1))
    (hbasic : ∀ r ∈ d'.rows, r.1 ≠ d.bounds.size) (hwithin' : d'.Within) : d.Imposes f (d'.drop d.bounds.size) := by
  have hbound : ∀ v, d'.bound v = if v = d.bounds.size then .nonNegative else d.bound v := fun v => by
    rw [halike.bound_eq, bound_withVariable]
  have hsize : d'.bounds.size = d.bounds.size + 1 := by rw [halike.bounds, size_withVariable]
  have hagree : ∀ (y : Nat → Rat), ∀ v < d.bounds.size, y v = Function.update y d.bounds.size 0 v := fun y v hv =>
    (Function.update_of_ne hv.ne 0 y).symm
  have hadmits : ∀ y, (d'.drop d.bounds.size).Admits y ↔ (d.Admits y ∧ f.eval y = 0) ∧ 0 ≤ y d.bounds.size := by
    intro y
    rw [hsolved'.admits_drop_iff hbasic (by rw [hbound, if_pos rfl]), halike.admits_iff, admits_withVariable_iff,
      Function.update_self, ← hf.normal.eval_congr (hagree y)]
    have hiff : d.Admits (Function.update y d.bounds.size 0) ↔ d.Admits y :=
      ⟨fun hy => hy.congr hsolved (hagree y), fun hy => hy.congr hsolved fun v hv => (hagree y v hv).symm⟩
    rw [hiff, eq_comm (a := (0 : Rat))]
    simp
  refine ⟨?_, fun v hv => ?_, ?_, hwithin'.drop _, fun y hy => ((hadmits y).mp hy).1, fun y hy hzero => ?_⟩
  · exact (Nat.le_succ _).trans hsize.ge
  · exact (hbound v).trans (if_neg hv.ne)
  · exact hsize ▸ hsolved'.drop _
  · refine ⟨Function.update y d.bounds.size 0, fun v hv => (hagree y v hv).symm, (hadmits _).mpr ⟨⟨?_, ?_⟩, ?_⟩⟩
    · exact hy.congr hsolved fun v hv => (hagree y v hv).symm
    · rwa [← hf.normal.eval_congr (hagree y)]
    · rw [Function.update_self]

/-- A function that must be zero is brought to zero with a column for its value, or it is zero nowhere. -/
theorem Shows.takes_addWithColumn (h : Shows t d) (hwithin : d.Within) (hconfined : d.Confined f)
    (hnonneg : 0 ≤ f.constant) (hv : d.bound v = .nonNegative) (hfv : f.coefficient v ≠ 0) :
    Takes t d f (t.addWithColumn (d.combination f)) := by
  obtain ⟨hcolumn, hdescending⟩ := h.descending_withColumn hsolved hwithin hf hconfined hnonneg
  obtain ⟨t', z, d', hrun, halike, hend, hleast⟩ := hdescending.descend (k := Tableau.budget)
  obtain ⟨t'', d'', halike', hsolved', hbasic, hwithin', hshows, hsettle⟩ := hend.settle fun g hg =>
    exists_grows_of_mem hsolved hwithin hf halike hend.within hg (hend.solved.reduced _ hg).normal hv hfv
  have hcolumn' : (d.withVariable f).column d.bounds.size = d'.column d.bounds.size := by
    rw [Dictionary.column, Dictionary.column, Dictionary.bound, Dictionary.bound, halike.bounds]
  have hadd : t.addWithColumn (d.combination f) = t'.settle (d'.column d.bounds.size) z := by
    rw [addWithColumn_eq, hrun, hcolumn, hcolumn']
    rfl
  rw [hadd, hsettle]
  split
  · rename_i hzero
    exact .imposed hshows ((halike.trans halike').imposes_drop hsolved hf hsolved' hbasic (hwithin' hzero))
  · rename_i hne
    rcases hleast with hlowering | hspent
    · refine .contradicted fun y hy hzero => hne (le_antisymm ?_ hend.constant_nonneg)
      have hagree : ∀ v < d.bounds.size, Function.update y d.bounds.size 0 v = y v := fun v hv =>
        Function.update_of_ne hv.ne 0 y
      have hadmits : d'.Admits (Function.update y d.bounds.size 0) := by
        rw [halike.admits_iff, admits_withVariable_iff, Function.update_self, hf.normal.eval_congr hagree]
        exact ⟨hy.congr hsolved hagree, le_rfl, hzero.symm⟩
      have hle := hend.constant_le hlowering hadmits
      rwa [Function.update_self] at hle
    · have horiented : (d.combination f).oriented = d.combination f := if_neg (not_lt.mpr hnonneg)
      exact .spent ⟨t', z, horiented.symm ▸ hspent⟩

end

/-! ## The column that becomes basic -/

/-- A new column can be basic without leaving its bound if it is no mark and has a negative coefficient. -/
theorem find?_own_eq (hf : f.IsNormal m) (hv : f.coefficient v ≠ 0) :
    ([d.column v].find? fun u => u.role ≠ .mark &&
      (((d.combination f).coefficient? u).map fun c => decide (c < 0)).getD false) =
        if d.bound v ≠ .zero ∧ f.coefficient v < 0 then some (d.column v) else none := by
  simp only [List.find?, coefficient?_combination hf, Form.lookup_terms hf, if_neg hv, Option.map_some,
    Option.getD_some, Ne, role_column_eq_mark_iff]
  split <;> simp_all

theorem all_mark_iff :
    ((d.combination f).cells.all fun (v, _) => v.role = .mark) = true ↔ ∀ p ∈ f.terms, d.bound p.1 = .zero := by
  rw [List.all_eq_true, combination, cells, List.forall_mem_map]
  simp [role_column_eq_mark_iff]

/-- A new mark can be basic. -/
theorem Shows.install_mark (h : Shows t d) (hv : d.bound v = .zero)
    (hnew : ∀ r ∈ t.rows, r.2.coefficient? (d.column v) = none) (hconstant : z.constant = 0)
    (hcells : ∀ c ∈ z.cells, c.1.role = .mark ∧ d.bound c.1.index = .zero) : Shows (t.install (d.column v) z) d := by
  have hrole : (d.column v).role = .mark := role_column_eq_mark_iff.mpr hv
  have hself : t.rows.map (fun r => (r.1, r.2.substitute (d.column v) z)) = t.rows := by
    refine (List.map_congr_left fun r hr => ?_).trans (List.map_id _)
    rw [Combination.substitute, Combination.substitute?, hnew r hr]
    rfl
  refine ⟨h.next, ?_, ?_, ?_⟩
  · rw [rows_install, hself, List.filter_cons_of_neg (by simpa using hrole), h.rows]
  · rw [rows_install, hself, List.forall_mem_cons]
    exact ⟨fun _ => ⟨hconstant, hcells⟩, h.marks⟩
  · have hcost : (t.install (d.column v) z).cost = t.cost.substitute (d.column v) z := rfl
    rw [hcost, h.cost]
    rfl

section

variable (hsolved : d.Solved d.bounds.size) (hf : d.Reduced d.bounds.size f) (hwithin : d.Within)

include hsolved hf hwithin

/-- An unknown becomes basic. -/
theorem Shows.takes_of_unknown (h : Shows t d) (hfree : d.bound v = .free) (hv : f.coefficient v ≠ 0) :
    Takes t d f (.ok (t.install (d.column v) ((d.combination f).solveFor (d.column v)))) := by
  have hisolate := Form.isNormal_isolate hf.normal v
  rw [solveFor_combination hf.normal hv]
  exact .imposed (h.install (fun r hr => (hsolved.reduced r hr).normal) hisolate (hfree.trans_ne (by decide)))
    (imposes_install hsolved hf hv (within_install_of_free hsolved hisolate hwithin hfree))

/-- A new column that may grow becomes basic, if it is not negative then. -/
theorem Shows.takes_of_own (h : Shows t d) (hconfined : d.Confined f) (hnonneg : 0 ≤ f.constant)
    (hbound : d.bound v = .nonNegative) (hneg : f.coefficient v < 0) (hnew : ∀ r ∈ d.rows, r.2.coefficient v = 0) :
    Takes t d f (.ok (t.install (d.column v) ((d.combination f).solveFor (d.column v)))) := by
  have hisolate := Form.isNormal_isolate hf.normal v
  rw [solveFor_combination hf.normal hneg.ne]
  refine .imposed (h.install (fun r hr => (hsolved.reduced r hr).normal) hisolate (hbound.trans_ne (by decide)))
    (imposes_install hsolved hf hneg.ne (within_install hsolved hisolate hwithin hbound (fun u hu => ?_) ?_ ?_))
  · rw [Form.coefficient_isolate hf.normal, hconfined u hu, ite_self, mul_zero]
  · rw [Form.constant_isolate]
    exact div_nonneg_of_nonpos (neg_nonpos.mpr hnonneg) hneg.le
  · intro r hr hr'
    rw [hnew r hr, zero_mul, add_zero]
    exact (hwithin r hr).nonneg hr'

/-- A new mark becomes basic, if the function is zero wherever marks are. -/
theorem Shows.takes_of_marks (h : Shows t d) (hmarks : ∀ p ∈ f.terms, d.bound p.1 = .zero) (hv : f.coefficient v ≠ 0)
    (hnew : ∀ r ∈ t.rows, r.2.coefficient? (d.column v) = none) :
    Takes t d f (if Combination.isNegligible f.constant then
      .ok (t.install (d.column v) ((d.combination f).solveFor (d.column v))) else .error .contradiction) := by
  have hmarks' : ∀ {u : Nat}, f.coefficient u ≠ 0 → d.bound u = .zero := fun hu =>
    hmarks _ ((Form.mem_terms_iff hf.normal).mpr ⟨rfl, hu⟩)
  have hconstant : ∀ y, d.Admits y → f.eval y = f.constant := fun y hy =>
    Form.eval_eq_constant fun p hp => hy.zero _ (hmarks p hp)
  by_cases hzero : f.constant = 0
  · rw [if_pos (isNegligible_iff.mpr hzero), solveFor_combination hf.normal hv]
    refine .imposed (h.install_mark (hmarks' hv) hnew ?_ (List.forall_mem_map.mpr fun p hp => ?_))
      ⟨le_rfl, fun _ _ => rfl, hsolved, hwithin, fun y hy => ⟨hy, ?_⟩, fun y hy _ => ⟨y, fun _ _ => rfl, hy⟩⟩
    · rw [constant_combination, Form.constant_isolate, hzero, neg_zero, zero_div]
    · obtain ⟨hcoefficient, hne⟩ := (Form.mem_terms_iff (Form.isNormal_isolate hf.normal v)).mp hp
      have hbound : d.bound p.1 = .zero := hmarks' fun hp => hne <| by
        rw [← hcoefficient, Form.coefficient_isolate hf.normal, hp, ite_self, mul_zero]
      exact ⟨role_column_eq_mark_iff.mpr hbound, hbound⟩
    · rw [hconstant y hy, hzero]
  · rw [if_neg (isNegligible_iff.not.mpr hzero)]
    exact .contradicted fun y hy => by rwa [hconstant y hy]

/-- A function that must be zero is taken with an unknown, with a column of its own or with a column for its value. -/
theorem Shows.takes_placeRow (h : Shows t d) (hnonneg : 0 ≤ f.constant) (hfv : f.coefficient v ≠ 0)
    (hnew : ∀ r ∈ t.rows, r.2.coefficient? (d.column v) = none) :
    Takes t d f (t.placeRow (d.combination f) [d.column v]) := by
  have hrows : ∀ r ∈ d.rows, r.2.coefficient v = 0 := fun r hr => by
    have hnone := hnew _ (h.mem_rows hr)
    rw [coefficient?_combination (hsolved.reduced r hr).normal] at hnone
    rw [Form.coefficient, hnone, Option.getD_none]
  unfold placeRow
  dsimp only
  rw [find?_own_eq hf.normal hfv]
  cases hunknown : (d.combination f).cells.find? fun (v, _) => v.role = .unknown with
  | some cell =>
    obtain ⟨u, rfl, hne, hfree⟩ := exists_of_find?_cells hf.normal hunknown
    simp only [decide_eq_true_eq, role_column_eq_unknown_iff] at hfree
    exact h.takes_of_unknown hsolved hf hwithin hfree hne
  | none =>
    have hconfined : d.Confined f := fun u hu => by
      by_contra hne
      have hnot := not_of_find?_cells hf.normal hunknown hne
      simp [role_column_eq_unknown_iff, hu] at hnot
    have hgrows : ∀ {u : Nat}, f.coefficient u ≠ 0 → d.bound u ≠ .zero → d.bound u = .nonNegative := fun hu =>
      (hconfined.nonNegative_or_zero hf.normal ((Form.mem_terms_iff hf.normal).mpr ⟨rfl, hu⟩)).resolve_right
    by_cases hbasic : d.bound v ≠ .zero ∧ f.coefficient v < 0
    · rw [if_pos hbasic]
      exact h.takes_of_own hsolved hf hwithin hconfined hnonneg (hgrows hfv hbasic.1) hbasic.2 hrows
    · rw [if_neg hbasic]
      by_cases hmarks : ∀ p ∈ f.terms, d.bound p.1 = .zero
      · rw [if_pos (all_mark_iff.mpr hmarks)]
        exact h.takes_of_marks hsolved hf hwithin hmarks hfv hnew
      · rw [if_neg (all_mark_iff.not.mpr hmarks)]
        push Not at hmarks
        obtain ⟨p, hp, hne⟩ := hmarks
        obtain ⟨hcoefficient, hne'⟩ := (Form.mem_terms_iff hf.normal).mp hp
        rw [← hcoefficient] at hne'
        exact h.takes_addWithColumn hsolved hf hwithin hconfined hnonneg (hgrows hne' hne) hne'

end

end RectLayout.LinearProgram
