import Mathlib.Data.List.Induction
import RectLayout.LinearProgram.Dictionary
import RectLayout.Proofs.LinearProgram.Form

/-!
# What a pivot keeps

The points of a dictionary are the values at which every basic variable equals its form (`Dictionary.Holds`). In a solved
dictionary no basic variable occurs in a form (`Dictionary.Solved`), so that the others can have any values and the
dictionary's own point is one of its points (`Solved.holds_value`). A variable that is not basic can get a form, which
then stands for it in all the others (`install`, `Solved.holds_install_iff`), and a pivot takes a row away and installs
what it says of the variable that enters (`exchange_eq_install`). So it keeps the points (`holds_exchange_iff`) and the
dictionary solved (`Solved.exchange`).

It keeps the values within their bounds (`Dictionary.Within`) if the variable that enters is free
(`within_exchange_of_free`), or if it grows no further than to where the first basic variable reaches zero
(`within_exchange`), which is the one that `leaving?` names (`leastRoom_leaving?`).
-/

namespace RectLayout.LinearProgram

section

variable {κ ω : Type} [BEq κ] [LawfulBEq κ] {l : List (κ × ω)}

theorem mem_of_lookup {k : κ} {v : ω} (h : l.lookup k = some v) : (k, v) ∈ l := by
  obtain ⟨before, after, hsplit, -⟩ := List.lookup_eq_some_iff.mp h
  rw [hsplit]
  simp

/-- Where no key occurs twice, every entry is found. -/
theorem lookup_of_nodup (h : (l.map Prod.fst).Nodup) {p : κ × ω} (hp : p ∈ l) : l.lookup p.1 = some p.2 := by
  induction l with
  | nil => cases hp
  | cons q l ih =>
    obtain ⟨k, v⟩ := q
    rw [List.map_cons, List.nodup_cons] at h
    rcases List.mem_cons.mp hp with rfl | hmem
    · exact List.lookup_cons_self
    · have hne : (p.1 == k) = false := by
        rw [beq_eq_false_iff_ne]
        rintro rfl
        exact h.1 (List.mem_map.mpr ⟨p, hmem, rfl⟩)
      rw [List.lookup_cons, hne]
      exact ih h.2 hmem

end

namespace Dictionary

variable {d : Dictionary} {m u v w : Nat} {e f g : Form} {y : Nat → Rat}

/-! ## Solved dictionaries -/

/-- Every basic variable equals its form. -/
def Holds (d : Dictionary) (y : Nat → Rat) : Prop := ∀ r ∈ d.rows, y r.1 = r.2.eval y

/-- A form in variables below `m` that are not basic. -/
structure Reduced (d : Dictionary) (m : Nat) (e : Form) : Prop where
  normal : e.IsNormal m
  apart : ∀ r ∈ d.rows, e.coefficient r.1 = 0

/-- The basic variables are below `m`, each has one form, and none occurs in a form. -/
structure Solved (d : Dictionary) (m : Nat) : Prop where
  reduced : ∀ r ∈ d.rows, d.Reduced m r.2
  lt : ∀ r ∈ d.rows, r.1 < m
  nodup : (d.rows.map Prod.fst).Nodup

theorem solved_empty (n : Nat) : (empty n).Solved m := ⟨List.forall_mem_nil _, List.forall_mem_nil _, .nil⟩

theorem Reduced.addScaled (he : d.Reduced m e) (hf : d.Reduced m f) (c : Rat) : d.Reduced m (e.addScaled c f) := by
  refine ⟨he.normal.addScaled hf.normal c, fun r hr => ?_⟩
  rw [Form.coefficient_addScaled he.normal hf.normal, he.apart r hr, hf.apart r hr, mul_zero, add_zero]

theorem Reduced.scale (he : d.Reduced m e) (c : Rat) : d.Reduced m (e.scale c) :=
  Reduced.addScaled ⟨Form.isNormal_const m 0, fun _ _ => rfl⟩ he c

theorem Solved.eq_of_mem (h : d.Solved m) (hf : (w, f) ∈ d.rows) (hg : (w, g) ∈ d.rows) : g = f :=
  Option.some.inj ((lookup_of_nodup h.nodup hg).symm.trans (lookup_of_nodup h.nodup hf))

/-! ## The point of a dictionary -/

theorem Solved.value_of_mem (h : d.Solved m) {r : Nat × Form} (hr : r ∈ d.rows) : d.value r.1 = r.2.constant := by
  rw [value, lookup_of_nodup h.nodup hr, Option.map_some, Option.getD_some]

theorem value_of_not_basic (hv : ∀ r ∈ d.rows, r.1 ≠ v) : d.value v = 0 := by
  have hnone : d.rows.lookup v = none := List.lookup_eq_none_iff.mpr fun r hr => bne_iff_ne.mpr (hv r hr).symm
  rw [value, hnone, Option.map_none, Option.getD_none]

theorem Reduced.ne_of_mem_terms (he : d.Reduced m e) {t : Nat × Rat} (ht : t ∈ e.terms) : ∀ r ∈ d.rows, r.1 ≠ t.1 := by
  intro r hr heq
  obtain ⟨hcoefficient, hne⟩ := (Form.mem_terms_iff he.normal).mp ht
  exact hne (hcoefficient.symm.trans (heq ▸ he.apart r hr))

/-- The value of a form without basic variables does not depend on them. -/
theorem Reduced.eval_congr {x : Nat → Rat} (he : d.Reduced m e) (h : ∀ v, (∀ r ∈ d.rows, r.1 ≠ v) → y v = x v) :
    e.eval y = e.eval x := Form.eval_congr fun _ ht => h _ (he.ne_of_mem_terms ht)

/-- At the point of the dictionary, a form without basic variables has its constant as value. -/
theorem Reduced.eval_value (he : d.Reduced m e) : e.eval d.value = e.constant := by
  rw [he.eval_congr (x := 0) fun v hv => value_of_not_basic hv, Form.eval_zero]

/-- The point of a solved dictionary is one of its points. -/
theorem Solved.holds_value (h : d.Solved m) : d.Holds d.value := fun r hr =>
  (h.value_of_mem hr).trans (h.reduced r hr).eval_value.symm

/-! ## Forms without basic variables -/

theorem Solved.reduced_formOf (h : d.Solved m) (hv : v < m) : d.Reduced m (d.formOf v) := by
  unfold formOf
  cases hlookup : d.rows.lookup v with
  | none =>
    refine ⟨Form.isNormal_single hv 1, fun r hr => ?_⟩
    have hne := List.lookup_eq_none_iff.mp hlookup r hr
    rw [Option.getD_none, Form.coefficient_single, if_neg (bne_iff_ne.mp hne).symm]
  | some f => exact h.reduced _ (mem_of_lookup hlookup)

theorem Holds.eval_formOf (hy : d.Holds y) (v : Nat) : (d.formOf v).eval y = y v := by
  unfold formOf
  cases hlookup : d.rows.lookup v with
  | none => rw [Option.getD_none, Form.eval_single, one_mul]
  | some f => exact (hy _ (mem_of_lookup hlookup)).symm

/-- The basic variables of a form are replaced. -/
theorem Solved.reduced_express (h : d.Solved m) (hf : f.IsNormal m) : d.Reduced m (d.express f) := by
  have hfold : ∀ (terms : List (Nat × Rat)) (e : Form), d.Reduced m e → (∀ t ∈ terms, t.1 < m) →
      d.Reduced m (terms.foldl (fun e t => e.addScaled t.2 (d.formOf t.1)) e) := by
    intro terms
    induction terms with
    | nil => exact fun e he _ => he
    | cons t terms ih =>
      intro e he hlt
      rw [List.forall_mem_cons] at hlt
      exact ih _ (he.addScaled (h.reduced_formOf hlt.1) t.2) hlt.2
  exact hfold f.terms _ ⟨Form.isNormal_const m _, fun _ _ => rfl⟩ fun t ht => Ascending.lt_of_mem hf ht

/-- At the points of a dictionary, a form keeps its value when basic variables are replaced. -/
theorem Holds.eval_express (hy : d.Holds y) (f : Form) : (d.express f).eval y = f.eval y := by
  have hfold : ∀ (terms : List (Nat × Rat)) (e : Form),
      (terms.foldl (fun e t => e.addScaled t.2 (d.formOf t.1)) e).eval y = e.eval y + sumAt y terms := by
    intro terms
    induction terms with
    | nil => exact fun e => (add_zero _).symm
    | cons t terms ih =>
      intro e
      rw [List.foldl_cons, ih, Form.eval_addScaled, hy.eval_formOf, sumAt_cons, add_assoc]
  rw [express, hfold, Form.eval_const, Form.eval_eq f, add_comm]

/-- The variables that are not basic can have any values. -/
theorem Solved.exists_holds (h : d.Solved m) (x : Nat → Rat) :
    ∃ y, d.Holds y ∧ ∀ v, (∀ r ∈ d.rows, r.1 ≠ v) → y v = x v := by
  have hfree : ∀ v, (∀ r ∈ d.rows, r.1 ≠ v) → (d.formOf v).eval x = x v := by
    intro v hv
    have hnone : d.rows.lookup v = none := List.lookup_eq_none_iff.mpr fun r hr => bne_iff_ne.mpr (hv r hr).symm
    rw [formOf, hnone, Option.getD_none, Form.eval_single, one_mul]
  refine ⟨fun v => (d.formOf v).eval x, fun r hr => ?_, hfree⟩
  have hreduced := h.reduced r hr
  have hbasic : d.formOf r.1 = r.2 := by rw [formOf, lookup_of_nodup h.nodup hr, Option.getD_some]
  show (d.formOf r.1).eval x = _
  rw [hbasic]
  exact (hreduced.eval_congr hfree).symm

/-- A form without basic variables is determined by its values at the points of the dictionary. -/
theorem Reduced.ext (h : d.Solved m) (he : d.Reduced m e) (hf : d.Reduced m f)
    (heval : ∀ y, d.Holds y → e.eval y = f.eval y) : e = f := by
  refine Form.ext_of_eval he.normal hf.normal fun x => ?_
  obtain ⟨y, hy, hfree⟩ := h.exists_holds x
  rw [← he.eval_congr hfree, ← hf.eval_congr hfree, heval y hy]

/-! ## New variables -/

theorem Solved.mono (h : d.Solved m) {k : Nat} (hk : m ≤ k) : d.Solved k :=
  ⟨fun r hr => ⟨(h.reduced r hr).normal.mono hk, (h.reduced r hr).apart⟩, fun r hr => (h.lt r hr).trans_le hk, h.nodup⟩

theorem holds_insert_iff : (d.insert v e).Holds y ↔ y v = e.eval y ∧ d.Holds y := List.forall_mem_cons

/-- A new variable can be basic. -/
theorem Solved.insert (h : d.Solved m) (he : d.Reduced m e) : (d.insert m e).Solved (m + 1) := by
  have hlt : ∀ r ∈ (d.insert m e).rows, r.1 < m + 1 :=
    List.forall_mem_cons.mpr ⟨Nat.lt_succ_self m, fun r hr => Nat.lt_succ_of_lt (h.lt r hr)⟩
  have hreduced : ∀ {f : Form}, d.Reduced m f → (d.insert m e).Reduced (m + 1) f := by
    refine fun hf => ⟨hf.normal.mono (Nat.le_succ m), List.forall_mem_cons.mpr ⟨?_, hf.apart⟩⟩
    by_contra hne
    exact Nat.lt_irrefl m (hf.normal.lt_of_coefficient_ne_zero hne)
  refine ⟨List.forall_mem_cons.mpr ⟨hreduced he, fun r hr => hreduced (h.reduced r hr)⟩, hlt, ?_⟩
  rw [Dictionary.insert, List.map_cons, List.nodup_cons]
  refine ⟨fun hmem => ?_, h.nodup⟩
  obtain ⟨r, hr, heq⟩ := List.mem_map.mp hmem
  exact (h.lt r hr).ne heq

/-! ## Variables that become basic -/

/-- The dictionary in which `v` is basic, with its form in its place in the others. -/
def install (d : Dictionary) (v : Nat) (g : Form) : Dictionary :=
  { d with rows := (v, g) :: d.rows.map fun r => (r.1, r.2.substitute v g) }

/-- The dictionary without the form of `w`. -/
def without (d : Dictionary) (w : Nat) : Dictionary := { d with rows := d.rows.filter fun r => r.1 != w }

/-- In a pivot one variable is no longer basic, and another one is instead. -/
theorem exchange_eq_install (d : Dictionary) (v w : Nat) (f : Form) :
    d.exchange v w f = (d.without w).install v (f.solveFor v w) := rfl

theorem mem_rows_without_iff {r : Nat × Form} : r ∈ (d.without w).rows ↔ r ∈ d.rows ∧ r.1 ≠ w := by
  simp [without]

theorem forall_mem_install {P : Nat × Form → Prop} :
    (∀ r ∈ (d.install v g).rows, P r) ↔ P (v, g) ∧ ∀ r ∈ d.rows, P (r.1, r.2.substitute v g) := by
  rw [install, List.forall_mem_cons, List.forall_mem_map]

theorem Solved.without (h : d.Solved m) (w : Nat) : (d.without w).Solved m := by
  refine ⟨fun r hr => ?_, fun r hr => h.lt r (mem_rows_without_iff.mp hr).1, (List.filter_sublist.map _).nodup h.nodup⟩
  have hreduced := h.reduced r (mem_rows_without_iff.mp hr).1
  exact ⟨hreduced.normal, fun s hs => hreduced.apart s (mem_rows_without_iff.mp hs).1⟩

theorem Solved.holds_iff_of_mem (h : d.Solved m) (hmem : (w, f) ∈ d.rows) :
    d.Holds y ↔ y w = f.eval y ∧ (d.without w).Holds y := by
  constructor
  · exact fun hy => ⟨hy _ hmem, fun r hr => hy r (mem_rows_without_iff.mp hr).1⟩
  · rintro ⟨hw, hy⟩ ⟨k, g⟩ hr
    by_cases hrw : k = w
    · subst hrw
      rwa [h.eq_of_mem hmem hr]
    · exact hy _ (mem_rows_without_iff.mpr ⟨hr, hrw⟩)

/-- The points at which the variable has the value of its form. -/
theorem Solved.holds_install_iff (h : d.Solved m) : (d.install v g).Holds y ↔ y v = g.eval y ∧ d.Holds y := by
  unfold Holds
  rw [forall_mem_install]
  refine and_congr_right fun hv => forall₂_congr fun r hr => ?_
  rw [Form.eval_substitute (h.reduced r hr).normal hv]

section

variable (h : d.Solved m) (hg : d.Reduced m g) (hgv : g.coefficient v = 0) (hv : ∀ r ∈ d.rows, r.1 ≠ v)

include hg hgv hv

/-- A form with the new basic variable replaced. -/
theorem Reduced.install (he : d.Reduced m e) : (d.install v g).Reduced m (e.substitute v g) := by
  refine ⟨he.normal.substitute hg.normal v, forall_mem_install.mpr ⟨?_, fun r hr => ?_⟩⟩
  · rw [Form.coefficient_substitute he.normal hg.normal, if_pos rfl, hgv, mul_zero, add_zero]
  · rw [Form.coefficient_substitute he.normal hg.normal, if_neg (hv r hr), he.apart r hr, hg.apart r hr, mul_zero,
      add_zero]

include h

theorem Solved.install (hlt : v < m) : (d.install v g).Solved m := by
  have hself := Form.substitute_of_coefficient_eq_zero hg.normal hgv g
  refine ⟨forall_mem_install.mpr ⟨?_, fun r hr => hg.install hgv hv (h.reduced r hr)⟩,
    forall_mem_install.mpr ⟨hlt, h.lt⟩, ?_⟩
  · have hreduced := hg.install hgv hv hg
    rwa [hself] at hreduced
  · rw [Dictionary.install, List.map_cons, List.map_map, List.nodup_cons]
    refine ⟨fun hmem => ?_, h.nodup⟩
    obtain ⟨r, hr, heq⟩ := List.mem_map.mp hmem
    exact hv r hr heq

end

/-! ## Pivots -/

section

variable (h : d.Solved m) (hmem : (w, f) ∈ d.rows)

include h hmem

/-- The form of the variable that enters. -/
theorem Solved.reduced_solveFor (v : Nat) : (d.without w).Reduced m (f.solveFor v w) := by
  have hf := h.reduced _ hmem
  refine ⟨hf.normal.solveFor (h.lt _ hmem) v, fun r hr => ?_⟩
  obtain ⟨hr, hrw⟩ := mem_rows_without_iff.mp hr
  rw [Form.coefficient_solveFor hf.normal (h.lt _ hmem), if_neg hrw, hf.apart r hr, ite_self, mul_zero, add_zero]

variable (hv : f.coefficient v ≠ 0)

include hv

/-- The variable that enters is not basic. -/
theorem Solved.ne_of_coefficient_ne_zero : ∀ r ∈ d.rows, r.1 ≠ v := by
  rintro r hr rfl
  exact hv ((h.reduced _ hmem).apart r hr)

theorem Solved.coefficient_solveFor_self : (f.solveFor v w).coefficient v = 0 := by
  rw [Form.coefficient_solveFor (h.reduced _ hmem).normal (h.lt _ hmem), if_pos rfl, mul_zero, add_zero,
    if_neg (h.ne_of_coefficient_ne_zero hmem hv _ hmem).symm]

theorem Solved.ne_of_mem_without : ∀ r ∈ (d.without w).rows, r.1 ≠ v := fun r hr =>
  h.ne_of_coefficient_ne_zero hmem hv r (mem_rows_without_iff.mp hr).1

/-- A pivot keeps the points. -/
theorem holds_exchange_iff : (d.exchange v w f).Holds y ↔ d.Holds y := by
  rw [exchange_eq_install, (h.without w).holds_install_iff, h.holds_iff_of_mem hmem,
    Form.eq_eval_solveFor_iff (h.reduced _ hmem).normal hv]

/-- At the points of the dictionary, a form keeps its value when the variable that enters is replaced. -/
theorem Holds.eval_substitute (hy : d.Holds y) (he : e.IsNormal m) :
    (e.substitute v (f.solveFor v w)).eval y = e.eval y :=
  Form.eval_substitute he ((Form.eq_eval_solveFor_iff (h.reduced _ hmem).normal hv w y).mpr (hy _ hmem))

/-- A form with the entering variable replaced has no variable that is basic after the pivot. -/
theorem Reduced.exchange (he : d.Reduced m e) : (d.exchange v w f).Reduced m (e.substitute v (f.solveFor v w)) :=
  (h.reduced_solveFor hmem v).install (h.coefficient_solveFor_self hmem hv) (h.ne_of_mem_without hmem hv)
    ⟨he.normal, fun r hr => he.apart r (mem_rows_without_iff.mp hr).1⟩

/-- A pivot keeps the dictionary solved. -/
theorem Solved.exchange : (d.exchange v w f).Solved m :=
  (h.without w).install (h.reduced_solveFor hmem v) (h.coefficient_solveFor_self hmem hv) (h.ne_of_mem_without hmem hv)
    ((h.reduced _ hmem).normal.lt_of_coefficient_ne_zero hv)

/-- A pivot replaces the variable that enters in the form of every variable. -/
theorem Solved.formOf_exchange (hu : u < m) :
    (d.exchange v w f).formOf u = (d.formOf u).substitute v (f.solveFor v w) := by
  have hsolved := h.exchange hmem hv
  refine (hsolved.reduced_formOf hu).ext hsolved (Reduced.exchange h hmem hv (h.reduced_formOf hu)) fun y hy => ?_
  have hy' := (holds_exchange_iff h hmem hv).mp hy
  rw [hy.eval_formOf, Holds.eval_substitute h hmem hv hy' (h.reduced_formOf hu).normal, hy'.eval_formOf]

end

/-! ## Bounds -/

/-- A form in which no free variable occurs. -/
def Confined (d : Dictionary) (e : Form) : Prop := ∀ u, d.bound u = .free → e.coefficient u = 0

theorem Confined.nonNegative_or_zero (he : d.Confined e) (hnormal : e.IsNormal m) {t : Nat × Rat} (ht : t ∈ e.terms) :
    d.bound t.1 = .nonNegative ∨ d.bound t.1 = .zero := by
  obtain ⟨hcoefficient, hne⟩ := (Form.mem_terms_iff hnormal).mp ht
  cases hbound : d.bound t.1 with
  | free => exact absurd (hcoefficient.symm.trans (he _ hbound)) hne
  | nonNegative => exact .inl rfl
  | zero => exact .inr rfl

/-- The value of a basic variable is within its bounds and does not depend on free variables, unless it is free. -/
structure RowWithin (d : Dictionary) (r : Nat × Form) : Prop where
  not_zero : d.bound r.1 ≠ .zero
  nonneg : d.bound r.1 = .nonNegative → 0 ≤ r.2.constant
  confined : d.bound r.1 = .nonNegative → d.Confined r.2

/-- Only the bounds of a dictionary matter for what is within them. -/
theorem RowWithin.of_bounds {d' : Dictionary} {r : Nat × Form} (h : d.RowWithin r) (hd : d'.bounds = d.bounds) :
    d'.RowWithin r := by
  have hbound : ∀ u, d'.bound u = d.bound u := fun u => by rw [bound, hd, bound]
  have hconfined : ∀ {e : Form}, d.Confined e → d'.Confined e := fun he u hu => he u ((hbound u).symm.trans hu)
  obtain ⟨hzero, hnonneg, hrow⟩ := h
  rw [← hbound] at hzero hnonneg hrow
  exact ⟨hzero, hnonneg, fun hr => hconfined (hrow hr)⟩

/-- The values of all basic variables are within their bounds. -/
def Within (d : Dictionary) : Prop := ∀ r ∈ d.rows, d.RowWithin r

/-- At the point of the dictionary, variables that are held at zero are zero. -/
theorem Within.value_eq_zero (h : d.Within) (hv : d.bound v = .zero) : d.value v = 0 := by
  refine value_of_not_basic ?_
  rintro r hr rfl
  exact (h r hr).not_zero hv

/-- At the point of the dictionary, no variable is negative that may not be. -/
theorem Within.value_nonneg (h : d.Within) (hsolved : d.Solved m) (hv : d.bound v = .nonNegative) : 0 ≤ d.value v := by
  by_cases hbasic : ∃ r ∈ d.rows, r.1 = v
  · obtain ⟨r, hr, rfl⟩ := hbasic
    rw [hsolved.value_of_mem hr]
    exact (h r hr).nonneg hv
  · rw [value_of_not_basic fun r hr heq => hbasic ⟨r, hr, heq⟩]

/-- The same bounds and points. -/
structure Alike (d d' : Dictionary) : Prop where
  bounds : d'.bounds = d.bounds
  holds_iff : ∀ y, d'.Holds y ↔ d.Holds y

theorem Alike.refl (d : Dictionary) : d.Alike d := ⟨rfl, fun _ => Iff.rfl⟩

theorem Alike.trans {d' d'' : Dictionary} (h : d.Alike d') (h' : d'.Alike d'') : d.Alike d'' :=
  ⟨h'.bounds.trans h.bounds, fun y => (h'.holds_iff y).trans (h.holds_iff y)⟩

theorem Alike.bound_eq {d' : Dictionary} (h : d.Alike d') (v : Nat) : d'.bound v = d.bound v := by
  rw [bound, h.bounds, bound]

/-- The points that are within the bounds. -/
structure Admits (d : Dictionary) (y : Nat → Rat) : Prop where
  holds : d.Holds y
  zero : ∀ v, d.bound v = .zero → y v = 0
  nonneg : ∀ v, d.bound v = .nonNegative → 0 ≤ y v

theorem Alike.symm {d' : Dictionary} (h : d.Alike d') : d'.Alike d := ⟨h.bounds.symm, fun y => (h.holds_iff y).symm⟩

theorem Alike.admits {d' : Dictionary} (h : d.Alike d') (hy : d.Admits y) : d'.Admits y where
  holds := (h.holds_iff y).mpr hy.holds
  zero v hv := hy.zero v ((h.bound_eq v).symm.trans hv)
  nonneg v hv := hy.nonneg v ((h.bound_eq v).symm.trans hv)

theorem Alike.admits_iff {d' : Dictionary} (h : d.Alike d') : d'.Admits y ↔ d.Admits y := ⟨h.symm.admits, h.admits⟩

theorem Within.admits_value (h : d.Within) (hsolved : d.Solved m) : d.Admits d.value :=
  ⟨hsolved.holds_value, fun _ => h.value_eq_zero, fun _ => h.value_nonneg hsolved⟩

/-- No free variable occurs in the form of a variable that may not be negative. -/
theorem Within.confined_formOf (h : d.Within) (hv : d.bound v = .nonNegative) : d.Confined (d.formOf v) := by
  intro u hu
  unfold formOf
  cases hlookup : d.rows.lookup v with
  | none =>
    rw [Option.getD_none, Form.coefficient_single, if_neg]
    rintro rfl
    cases hu.symm.trans hv
  | some f => exact (h _ (mem_of_lookup hlookup)).confined hv u hu

theorem Confined.scale (he : d.Confined e) (hnormal : e.IsNormal m) (c : Rat) : d.Confined (e.scale c) := by
  intro u hu
  rw [Form.coefficient_scale hnormal, he u hu, mul_zero]

/-- Replacing a variable leaves a form without free variables, if it brings none in. -/
theorem Confined.substitute (he : d.Confined e) (hnormal : e.IsNormal m) (hg : d.Confined g) (hgnormal : g.IsNormal m) :
    d.Confined (e.substitute v g) := by
  intro u hu
  rw [Form.coefficient_substitute hnormal hgnormal, he u hu, hg u hu, ite_self, mul_zero, add_zero]

section

variable (h : d.Solved m) (hg : g.IsNormal m)

include h hg

/-- What a free variable becomes keeps the bounds of the other basic variables. -/
theorem within_install_of_free (hwithin : d.Within) (hv : d.bound v = .free) : (d.install v g).Within := by
  refine forall_mem_install.mpr ⟨⟨fun hzero => ?_, fun hbound => ?_, fun hbound => ?_⟩, fun r hr => ?_⟩
  · cases hv.symm.trans hzero
  · cases hv.symm.trans hbound
  · cases hv.symm.trans hbound
  · obtain ⟨hzero, hnonneg, hconfined⟩ := hwithin r hr
    refine ⟨hzero, fun hbound => ?_, fun hbound u hu => ?_⟩
    · rw [Form.constant_substitute, hconfined hbound v hv, zero_mul, add_zero]
      exact hnonneg hbound
    · rw [Form.coefficient_substitute (h.reduced r hr).normal hg, hconfined hbound v hv, zero_mul, add_zero,
        hconfined hbound u hu, ite_self]

/-- A variable that grows keeps the bounds of the other basic variables, if it grows no further than they allow. -/
theorem within_install (hwithin : d.Within) (hv : d.bound v = .nonNegative) (hconfined : d.Confined g)
    (hgrowth : 0 ≤ g.constant)
    (hroom : ∀ r ∈ d.rows, d.bound r.1 = .nonNegative → 0 ≤ r.2.constant + r.2.coefficient v * g.constant) :
    (d.install v g).Within := by
  refine forall_mem_install.mpr ⟨⟨fun hzero => ?_, fun _ => hgrowth, fun _ => hconfined⟩, fun r hr => ?_⟩
  · cases hv.symm.trans hzero
  · obtain ⟨hzero, -, hrow⟩ := hwithin r hr
    refine ⟨hzero, fun hbound => ?_, fun hbound => (hrow hbound).substitute (h.reduced r hr).normal hconfined hg⟩
    rw [Form.constant_substitute]
    exact hroom r hr hbound

end

section

variable (h : d.Solved m) (hmem : (w, f) ∈ d.rows)

include h hmem

/-- The form of a variable that enters has no free variables if the form that is solved for it has none. -/
theorem Solved.confined_solveFor (hw : d.bound w ≠ .free) (hf : d.Confined f) : d.Confined (f.solveFor v w) := by
  intro u hu
  have huw : u ≠ w := by
    rintro rfl
    exact hw hu
  rw [Form.coefficient_solveFor (h.reduced _ hmem).normal (h.lt _ hmem), if_neg huw, hf u hu, ite_self, mul_zero,
    add_zero]

/-- A pivot that a free variable enters keeps the bounds of the other basic variables. -/
theorem within_exchange_of_free (hrest : ∀ r ∈ d.rows, r.1 ≠ w → d.RowWithin r) (hv : d.bound v = .free) :
    (d.exchange v w f).Within :=
  within_install_of_free (h.without w) ((h.reduced _ hmem).normal.solveFor (h.lt _ hmem) v)
    (fun r hr => (hrest r (mem_rows_without_iff.mp hr).1 (mem_rows_without_iff.mp hr).2).of_bounds rfl) hv

/-- A pivot in which a variable grows keeps the bounds of the other basic variables, if it grows no further than they
allow. -/
theorem within_exchange (hrest : ∀ r ∈ d.rows, r.1 ≠ w → d.RowWithin r) (hv : d.bound v = .nonNegative)
    (hw : d.bound w ≠ .free) (hf : d.Confined f) (hgrowth : 0 ≤ -f.constant / f.coefficient v)
    (hroom : ∀ r ∈ d.rows, r.1 ≠ w → d.bound r.1 = .nonNegative →
      0 ≤ r.2.constant + r.2.coefficient v * (-f.constant / f.coefficient v)) : (d.exchange v w f).Within := by
  refine within_install (h.without w) ((h.reduced _ hmem).normal.solveFor (h.lt _ hmem) v) (fun r hr => ?_) hv
    (h.confined_solveFor hmem hw hf) ?_ fun r hr hbound => ?_
  · exact (hrest r (mem_rows_without_iff.mp hr).1 (mem_rows_without_iff.mp hr).2).of_bounds rfl
  · rwa [Form.constant_solveFor]
  · rw [Form.constant_solveFor]
    exact hroom r (mem_rows_without_iff.mp hr).1 (mem_rows_without_iff.mp hr).2 hbound

/-- A pivot in which nothing grows changes no value. -/
theorem within_exchange_of_constant_eq_zero (hwithin : d.Within) (hv : d.bound v = .nonNegative)
    (hw : d.bound w = .nonNegative) (hzero : f.constant = 0) : (d.exchange v w f).Within := by
  have hgrowth : -f.constant / f.coefficient v = 0 := by rw [hzero, neg_zero, zero_div]
  refine within_exchange h hmem (fun r hr _ => hwithin r hr) hv (hw.trans_ne (by decide))
    ((hwithin _ hmem).confined hw) hgrowth.ge fun r hr _ hbound => ?_
  rw [hgrowth, mul_zero, add_zero]
  exact (hwithin r hr).nonneg hbound

end

/-! ## New variables with bounds -/

theorem bound_fresh (d : Dictionary) (b : Bound) (v : Nat) :
    (d.fresh b).2.bound v = if v = d.bounds.size then b else d.bound v := by
  simp only [fresh, Dictionary.bound, Array.getD_eq_getD_getElem?, Array.getElem?_push]
  split <;> rfl

theorem lt_size_of_bound (h : d.bound v ≠ .free) : v < d.bounds.size := by
  by_contra hv
  simp [Dictionary.bound, hv] at h

theorem Confined.fresh (he : d.Confined e) {b : Bound} (hb : b ≠ .free) : (d.fresh b).2.Confined e := by
  intro u hu
  rw [bound_fresh] at hu
  split at hu
  · exact absurd hu hb
  · exact he u hu

theorem Solved.fresh (h : d.Solved m) (b : Bound) : (d.fresh b).2.Solved m :=
  ⟨fun r hr => ⟨(h.reduced r hr).normal, (h.reduced r hr).apart⟩, h.lt, h.nodup⟩

/-- A new variable that is not free changes nothing for the values of the others. -/
theorem Within.fresh (h : d.Within) (hsolved : d.Solved d.bounds.size) {b : Bound} (hb : b ≠ .free) :
    (d.fresh b).2.Within := by
  intro r hr
  have hbound : (d.fresh b).2.bound r.1 = d.bound r.1 := by rw [bound_fresh, if_neg (hsolved.lt r hr).ne]
  obtain ⟨hzero, hnonneg, hconfined⟩ := h r hr
  rw [← hbound] at hzero hnonneg hconfined
  exact ⟨hzero, hnonneg, fun hr' => Confined.fresh (hconfined hr') hb⟩

theorem boundOf_ne_free (kind : RowKind) : boundOf kind ≠ .free := by cases kind <;> decide

theorem boundOf_eq_zero_iff {kind : RowKind} : boundOf kind = .zero ↔ kind = .equality := by cases kind <;> decide

/-- The dictionary with a variable for one more demand. -/
abbrev freshFor (d : Dictionary) (demand : Demand) : Dictionary := (d.fresh (boundOf demand.kind)).2

/-! ## Which variables are exchanged -/

theorem freeIn?_eq_some (he : e.IsNormal m) (hv : d.freeIn? e = some v) :
    d.bound v = .free ∧ e.coefficient v ≠ 0 := by
  obtain ⟨⟨w, c⟩, hfind, rfl⟩ := Option.map_eq_some_iff.mp hv
  obtain ⟨hcoefficient, hc⟩ := (Form.mem_terms_iff he).mp (List.mem_of_find?_eq_some hfind)
  exact ⟨by simpa using List.find?_some hfind, by rwa [hcoefficient]⟩

theorem freeIn?_eq_none (he : e.IsNormal m) (h : d.freeIn? e = none) : d.Confined e := by
  intro u hu
  by_contra hne
  have hnot := List.find?_eq_none.mp (Option.map_eq_none_iff.mp h) _ ((Form.mem_terms_iff he).mpr ⟨rfl, hne⟩)
  simp [hu] at hnot

theorem raising?_eq_some {c : Rat} (he : e.IsNormal m) (hv : d.raising? e = some (v, c)) :
    d.bound v = .nonNegative ∧ e.coefficient v = c ∧ 0 < c := by
  have hsome := List.find?_some hv
  simp only [Bool.and_eq_true, beq_iff_eq, decide_eq_true_eq] at hsome
  exact ⟨hsome.1, ((Form.mem_terms_iff he).mp (List.mem_of_find?_eq_some hv)).1, hsome.2⟩

theorem raising?_eq_none (h : d.raising? e = none) : ∀ t ∈ e.terms, d.bound t.1 = .nonNegative → t.2 ≤ 0 := by
  intro t ht hbound
  simpa [hbound] using List.find?_eq_none.mp h t ht

/-- A basic variable that falls when `v` grows, and may not become negative. -/
def Falls (d : Dictionary) (v : Nat) (r : Nat × Form) : Prop := d.bound r.1 = .nonNegative ∧ r.2.coefficient v < 0

/-- The growth of `v` at which a variable that falls is zero. -/
def room (v : Nat) (r : Nat × Form) : Rat := r.2.constant / -r.2.coefficient v

/-- The answer is a variable with the least room among those that fall, if there is one. -/
inductive LeastRoom (d : Dictionary) (v : Nat) (rows : List (Nat × Form)) : Option (Nat × Form × Rat) → Prop
  | none (h : ∀ r ∈ rows, ¬ d.Falls v r) : LeastRoom d v rows none
  | some {r : Nat × Form} (hr : r ∈ rows) (hfalls : d.Falls v r) (hle : ∀ s ∈ rows, d.Falls v s → room v r ≤ room v s) :
    LeastRoom d v rows (some (r.1, r.2, room v r))

theorem falls_iff {r : Nat × Form} :
    (d.bound r.1 == .nonNegative && decide (r.2.coefficient v < 0)) = true ↔ d.Falls v r := by
  simp [Falls]

/-- The ratio test keeps the variable with the least room from row to row. -/
theorem LeastRoom.nearer {rows : List (Nat × Form)} {best : Option (Nat × Form × Rat)} (h : LeastRoom d v rows best)
    (r : Nat × Form) : LeastRoom d v (rows ++ [r]) (d.nearer v best r) := by
  have hmem : r ∈ rows ++ [r] := List.mem_append_right rows (List.mem_singleton_self r)
  have hlast : ∀ {P : Nat × Form → Prop}, (∀ s ∈ rows, P s) → P r → ∀ s ∈ rows ++ [r], P s := fun h h' =>
    List.forall_mem_append.mpr ⟨h, List.forall_mem_singleton.mpr h'⟩
  unfold Dictionary.nearer
  dsimp only
  by_cases hfalls : d.Falls v r
  · have hself : room v r ≤ room v r := le_rfl
    rw [if_pos (falls_iff.mpr hfalls)]
    cases h with
    | none hnone => exact .some hmem hfalls (hlast (fun s hs hs' => absurd hs' (hnone s hs)) fun _ => hself)
    | @some s hs hsfalls hle =>
      dsimp only
      split
      · rename_i hless
        have hless : room v r ≤ room v s := by
          simp only [Bool.or_eq_true, decide_eq_true_eq, Bool.and_eq_true, beq_iff_eq] at hless
          exact hless.elim le_of_lt fun h => h.1.le
        exact .some hmem hfalls (hlast (fun u hu hu' => hless.trans (hle u hu hu')) fun _ => hself)
      · rename_i hless
        have hless : room v s ≤ room v r := by
          simp only [Bool.or_eq_true, decide_eq_true_eq, not_or] at hless
          exact not_lt.mp hless.1
        exact .some (List.mem_append_left _ hs) hsfalls (hlast hle fun _ => hless)
  · rw [if_neg (falls_iff.not.mpr hfalls)]
    cases h with
    | none hnone => exact .none (hlast hnone hfalls)
    | some hs hsfalls hle => exact .some (List.mem_append_left _ hs) hsfalls (hlast hle fun h => absurd h hfalls)

/-- The ratio test finds the basic variable with the least room. -/
theorem leastRoom_leaving? (d : Dictionary) (v : Nat) : LeastRoom d v d.rows (d.leaving? v) := by
  unfold leaving?
  generalize d.rows = rows
  induction rows using List.reverseRecOn with
  | nil => exact .none (List.forall_mem_nil _)
  | append_singleton rows r ih =>
    rw [List.foldl_append, List.foldl_cons, List.foldl_nil]
    exact ih.nearer r

theorem leaving?_eq_none (h : d.leaving? v = none) : ∀ r ∈ d.rows, ¬ d.Falls v r := by
  have hleast := leastRoom_leaving? d v
  rw [h] at hleast
  cases hleast with
  | none hnone => exact hnone

theorem leaving?_eq_some {growth : Rat} (h : d.leaving? v = some (w, f, growth)) :
    (w, f) ∈ d.rows ∧ d.Falls v (w, f) ∧ growth = room v (w, f) ∧ ∀ r ∈ d.rows, d.Falls v r → growth ≤ room v r := by
  have hleast := leastRoom_leaving? d v
  rw [h] at hleast
  cases hleast with
  | some hr hfalls hle => exact ⟨hr, hfalls, rfl, hle⟩

/-- A basic variable that is not negative stays so as long as `v` grows within its room. -/
theorem nonneg_of_le_room {r : Nat × Form} {growth : Rat} (hr : 0 ≤ r.2.constant) (hbound : d.bound r.1 = .nonNegative)
    (hgrowth : 0 ≤ growth) (hle : d.Falls v r → growth ≤ room v r) :
    0 ≤ r.2.constant + r.2.coefficient v * growth := by
  rcases lt_or_ge (r.2.coefficient v) 0 with hneg | hnonneg
  · have hroom := hle ⟨hbound, hneg⟩
    rw [room, le_div_iff₀ (neg_pos.mpr hneg)] at hroom
    linarith
  · exact add_nonneg hr (mul_nonneg hnonneg hgrowth)

/-- A pivot with the variable that reaches zero first keeps the values within their bounds. -/
theorem Solved.within_exchange_of_leaving? (h : d.Solved m) (hwithin : d.Within) (hv : d.bound v = .nonNegative)
    {growth : Rat} (hleaving : d.leaving? v = some (w, f, growth)) : (d.exchange v w f).Within := by
  obtain ⟨hmem, hfalls, rfl, hle⟩ := leaving?_eq_some hleaving
  obtain ⟨-, hnonneg, hconfined⟩ := hwithin _ hmem
  have hw : d.bound w ≠ .free := by
    intro hfree
    cases hfree.symm.trans hfalls.1
  have hroom : -f.constant / f.coefficient v = room v (w, f) := by rw [room, div_neg, neg_div]
  have hgrows : 0 ≤ room v (w, f) := div_nonneg (hnonneg hfalls.1) (neg_nonneg.mpr hfalls.2.le)
  refine within_exchange h hmem (fun r hr _ => hwithin r hr) hv hw (hconfined hfalls.1) (hroom.symm ▸ hgrows) ?_
  rw [hroom]
  exact fun r hr _ hbound => nonneg_of_le_room ((hwithin r hr).nonneg hbound) hbound hgrows (hle r hr)

end Dictionary

end RectLayout.LinearProgram
