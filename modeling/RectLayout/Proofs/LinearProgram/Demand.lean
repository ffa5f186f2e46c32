import RectLayout.Proofs.LinearProgram.Elimination
import RectLayout.Proofs.LinearProgram.Row

/-!
# Demands on a tableau

A dictionary represents demands if its points within the bounds are, on the unknowns, the points that meet them
(`Dictionary.Represents`). Then its own point meets them (`Dictionary.Represents.holds_value`).

The row of one more demand is its form with a new variable, which is held at zero or not negative as the demand is an
equality or an inequality (`rowForm`), so that the demand is met where the row is zero (`holds_iff_exists_slack`,
`Dictionary.Represents.met_iff_rowForm`). A tableau takes the row with either sign (`Shows.takes_addRow`). So it
represents the demand, too, or the demand cannot be met with the others, unless the descent for it makes all its pivots
(`Dictionary.Represents.answers`).
-/

namespace RectLayout.LinearProgram

open Dictionary

variable {t : Tableau Rat} {d d' : Dictionary} {n v : Nat} {f g : Form} {demands : List Demand} {demand : Demand}
  {x y : Nat → Rat} {result : Except Refusal (Tableau Rat)}

/-! ## Rows of either sign -/

theorem Dictionary.Imposes.congr (h : d.Imposes f d') (heval : ∀ y, f.eval y = 0 ↔ g.eval y = 0) : d.Imposes g d' where
  size_le := h.size_le
  bound := h.bound
  solved := h.solved
  within := h.within
  of_admits y hy := ⟨(h.of_admits y hy).1, (heval y).mp (h.of_admits y hy).2⟩
  exists_admits y hy hzero := h.exists_admits y hy ((heval y).mpr hzero)

theorem Tableau.addRow_eq {α : Type} [Scalar α] (t : Tableau α) (f : Combination α) (own : List Column) :
    t.addRow f own = (t.placeRow f.oriented own >>= fun t =>
      descend Tableau.budget t t.cost >>= fun r => .ok r.1) := rfl

/-- A tableau that shows a dictionary has no costs, so that nothing is left to do when it has taken a row. -/
theorem Takes.bind_descend (h : Takes t d f result) :
    Takes t d f (result >>= fun t => Tableau.descend Tableau.budget t t.cost >>= fun r => .ok r.1) := by
  cases h with
  | imposed hshows himposes =>
    rename_i t' d'
    have hbind : ((.ok t' : Except Refusal (Tableau Rat)) >>= fun t => Tableau.descend Tableau.budget t t.cost >>=
        fun r => .ok r.1) = .ok t' := by
      show (Tableau.descend Tableau.budget t' t'.cost >>= fun r => .ok r.1) = _
      rw [hshows.cost, Tableau.descend_const]
      rfl
    rw [hbind]
    exact .imposed hshows himposes
  | contradicted hnot => exact .contradicted hnot
  | spent hspent => exact .spent hspent

/-- The form or its negative, whichever has a constant that is not negative. -/
def Form.oriented (f : Form) : Form := if f.constant < 0 then f.scale (-1) else f

theorem oriented_combination (d : Dictionary) (f : Form) : (d.combination f).oriented = d.combination f.oriented := by
  unfold Combination.oriented Form.oriented
  rw [constant_combination]
  split
  · exact combination_scale (neg_ne_zero.mpr one_ne_zero) f
  · rfl

/-- A row has a sign with which its constant is not negative. -/
theorem Form.exists_oriented_eq (f : Form) : 0 ≤ f.oriented.constant ∧ (f.oriented = f ∨ f.oriented = f.scale (-1)) := by
  unfold oriented
  split
  · rename_i hneg
    rw [constant_scale]
    exact ⟨by linarith, .inr rfl⟩
  · rename_i hneg
    exact ⟨not_lt.mp hneg, .inl rfl⟩

/-- A function that must be zero is taken, or it is zero nowhere, or the descent for it makes all its pivots. -/
theorem Shows.takes_addRow (h : Shows t d) (hsolved : d.Solved d.bounds.size) (hwithin : d.Within)
    (hf : d.Reduced d.bounds.size f) (hfv : f.coefficient v ≠ 0)
    (hnew : ∀ r ∈ t.rows, r.2.coefficient? (d.column v) = none) :
    Takes t d f (t.addRow (d.combination f) [d.column v]) := by
  rw [Tableau.addRow_eq, oriented_combination]
  refine Takes.bind_descend ?_
  obtain ⟨hnonneg, hcases⟩ := f.exists_oriented_eq
  rcases hcases with heq | heq
  · rw [heq] at hnonneg ⊢
    exact h.takes_placeRow hsolved hf hwithin hnonneg hfv hnew
  · have hcoefficient : f.oriented.coefficient v ≠ 0 := by
      rw [heq, Form.coefficient_scale hf.normal]
      exact mul_ne_zero (neg_ne_zero.mpr one_ne_zero) hfv
    have heval : ∀ y, f.oriented.eval y = 0 ↔ f.eval y = 0 := fun y => by
      rw [heq, Form.eval_scale]
      simp
    have htakes := h.takes_placeRow hsolved (heq ▸ hf.scale (-1)) hwithin hnonneg hcoefficient hnew
    generalize t.placeRow (d.combination f.oriented) [d.column v] = result at htakes ⊢
    cases htakes with
    | imposed hshows himposes => exact .imposed hshows (himposes.congr heval)
    | contradicted hnot => exact .contradicted fun y hy hzero => hnot y hy ((heval y).mpr hzero)
    | spent hspent =>
      refine .spent ?_
      rw [oriented_combination] at hspent ⊢
      have hself : f.oriented.oriented = f.oriented := if_neg (not_lt.mpr hnonneg)
      rwa [hself] at hspent

/-! ## Demands -/

/-- The dictionary has the unknowns below `n`, and its points within the bounds are the points that meet the demands. -/
structure Dictionary.Represents (d : Dictionary) (n : Nat) (demands : List Demand) : Prop where
  size_le : n ≤ d.bounds.size
  unknown : ∀ v < n, d.bound v = .free
  solved : d.Solved d.bounds.size
  within : d.Within
  met_iff : ∀ x, (∀ demand ∈ demands, demand.holds x) ↔ ∃ y, (∀ v < n, y v = x v) ∧ d.Admits y

theorem represents_empty (n : Nat) : (Dictionary.empty n).Represents n [] where
  size_le := by simp [Dictionary.empty]
  unknown v hv := by simp [Dictionary.bound, Dictionary.empty, hv]
  solved := solved_empty n
  within := List.forall_mem_nil _
  met_iff x := by
    have hfree : ∀ v, (Dictionary.empty n).bound v = .free := fun v => by
      simp only [Dictionary.bound, Dictionary.empty, Array.getD_eq_getD_getElem?, Array.getElem?_replicate]
      split <;> rfl
    refine iff_of_true (List.forall_mem_nil _) ⟨x, fun _ _ => rfl, List.forall_mem_nil _, fun v hv => ?_, fun v hv => ?_⟩
    · cases (hfree v).symm.trans hv
    · cases (hfree v).symm.trans hv

/-- The demands are met at the point of the dictionary. -/
theorem Dictionary.Represents.holds_value (h : d.Represents n demands) : ∀ demand ∈ demands, demand.holds d.value :=
  (h.met_iff d.value).mpr ⟨d.value, fun _ _ => rfl, h.within.admits_value h.solved⟩

theorem size_freshFor (d : Dictionary) (demand : Demand) : (freshFor d demand).bounds.size = d.bounds.size + 1 := by
  simp [freshFor, fresh]

/-- The coefficient of the variable for a demand in its row. -/
def slackSign : RowKind → Rat
  | .equality => 1
  | .inequality => -1

/-- The row of a demand: its form with the variable that makes it zero. -/
def rowForm (d : Dictionary) (demand : Demand) : Form :=
  (d.express demand.form).addScaled (slackSign demand.kind) (.single d.bounds.size 1)

theorem eval_rowForm (hy : d.Holds y) :
    (rowForm d demand).eval y = demand.form.eval y + slackSign demand.kind * y d.bounds.size := by
  rw [rowForm, Form.eval_addScaled, hy.eval_express, Form.eval_single, one_mul]

/-- A demand is met where some value of its variable within the bound makes its row zero. -/
theorem holds_iff_exists_slack : demand.holds x ↔
    ∃ s, (boundOf demand.kind = .zero → s = 0) ∧ (boundOf demand.kind = .nonNegative → 0 ≤ s) ∧
      demand.form.eval x + slackSign demand.kind * s = 0 := by
  rw [Demand.holds_iff]
  cases demand.kind with
  | equality => simp [boundOf, slackSign]
  | inequality =>
    constructor
    · intro h
      exact ⟨demand.form.eval x, by simp [boundOf], fun _ => h, by simp [slackSign]⟩
    · rintro ⟨s, -, hnonneg, hzero⟩
      have hs := hnonneg rfl
      rw [slackSign] at hzero
      show 0 ≤ _
      linarith

/-- A demand is met together with the others where its row is zero. -/
theorem Dictionary.Represents.met_iff_rowForm (h : d.Represents n demands) (hnormal : demand.form.IsNormal n)
    (x : Nat → Rat) : (∀ demand' ∈ demands ++ [demand], demand'.holds x) ↔
      ∃ y, (∀ v < n, y v = x v) ∧ (freshFor d demand).Admits y ∧ (rowForm d demand).eval y = 0 := by
  rw [List.forall_mem_append, List.forall_mem_singleton, h.met_iff, holds_iff_exists_slack]
  constructor
  · rintro ⟨⟨y, hyx, hy⟩, s, hequality, hinequality, hzero⟩
    have hagree : ∀ v < d.bounds.size, Function.update y d.bounds.size s v = y v := fun v hv =>
      Function.update_of_ne hv.ne s y
    have hextends : ∀ v < n, Function.update y d.bounds.size s v = x v := fun v hv =>
      (hagree v (hv.trans_le h.size_le)).trans (hyx v hv)
    have hadmits := hy.congr h.solved hagree
    refine ⟨_, hextends, admits_fresh_iff.mpr ⟨hadmits, ?_⟩, ?_⟩
    · rw [Function.update_self]
      exact ⟨hequality, hinequality⟩
    · rwa [eval_rowForm hadmits.holds, hnormal.eval_congr hextends, Function.update_self]
  · rintro ⟨y, hyx, hadmits, hzero⟩
    obtain ⟨hy, hequality, hinequality⟩ := admits_fresh_iff.mp hadmits
    rw [eval_rowForm hy.holds, hnormal.eval_congr hyx] at hzero
    exact ⟨⟨y, hyx, hy⟩, y d.bounds.size, hequality, hinequality, hzero⟩

/-- A dictionary whose points are those at which the row of one more demand is zero represents that demand, too. -/
theorem Dictionary.Imposes.represents (himposes : (freshFor d demand).Imposes (rowForm d demand) d')
    (h : d.Represents n demands)
    (hmet : ∀ x, (∀ demand' ∈ demands ++ [demand], demand'.holds x) ↔
      ∃ y, (∀ v < n, y v = x v) ∧ (freshFor d demand).Admits y ∧ (rowForm d demand).eval y = 0) :
    d'.Represents n (demands ++ [demand]) where
  size_le := by
    have hsize := size_freshFor d demand
    have hle := h.size_le
    have hle' := himposes.size_le
    omega
  unknown v hv := by
    have hlt := hv.trans_le h.size_le
    rw [himposes.bound v (by rw [size_freshFor]; omega), bound_fresh, if_neg hlt.ne, h.unknown v hv]
  solved := himposes.solved
  within := himposes.within
  met_iff x := by
    rw [hmet]
    constructor
    · rintro ⟨y, hyx, hy, hzero⟩
      obtain ⟨y', hagree, hy'⟩ := himposes.exists_admits y hy hzero
      refine ⟨y', fun v hv => (hagree v ?_).trans (hyx v hv), hy'⟩
      have hlt := hv.trans_le h.size_le
      rw [size_freshFor]
      omega
    · rintro ⟨y, hyx, hy⟩
      exact ⟨y, hyx, himposes.of_admits y hy⟩

/-- The row of a demand, with the column that makes it zero. -/
def Tableau.rowOf {α : Type} [Scalar α] (t : Tableau α) (nonNegative : Bool) (terms : List (Nat × α)) (constant : α) :
    Combination α :=
  (t.express terms constant).add (t.fresh (if nonNegative then .slack else .mark)).1 (if nonNegative then -1 else 1)

/-- The descent for a demand makes all the pivots that it may make. -/
def Tableau.SpentOn {α : Type} [Scalar α] (t : Tableau α) (nonNegative : Bool) (terms : List (Nat × α)) (constant : α) :
    Prop :=
  (t.fresh (if nonNegative then .slack else .mark)).2.Spent (t.rowOf nonNegative terms constant).oriented

/-- What comes of one more demand: the tableau represents it as well, or it cannot be met with the others, or the descent
for it makes all its pivots. -/
inductive Answers (n : Nat) (demands : List Demand) (t : Tableau Rat) (demand : Demand) :
    Except Refusal (Tableau Rat) → Prop
  | taken {t' : Tableau Rat} {d' : Dictionary} (hshows : Shows t' d') (h : d'.Represents n (demands ++ [demand])) :
      Answers n demands t demand (.ok t')
  | contradicted (hnot : ¬ Meetable (demands ++ [demand])) : Answers n demands t demand (.error .contradiction)
  | spent (hspent : t.SpentOn (demand.kind == .inequality) demand.form.terms demand.form.constant) :
      Answers n demands t demand (.error .contradiction)

theorem role_boundOf (kind : RowKind) : (if kind == .inequality then Role.slack else .mark) = (boundOf kind).role := by
  cases kind <;> rfl

theorem slackSign_ne_zero (kind : RowKind) : slackSign kind ≠ 0 := by cases kind <;> simp [slackSign]

theorem Tableau.demand_eq {α : Type} [Scalar α] (t : Tableau α) (nonNegative : Bool) (terms : List (Nat × α))
    (constant : α) : t.demand nonNegative terms constant =
      (t.fresh (if nonNegative then .slack else .mark)).2.addRow (t.rowOf nonNegative terms constant)
        [(t.fresh (if nonNegative then .slack else .mark)).1] := rfl

section

variable (h : d.Represents n demands) (hnormal : demand.form.IsNormal n)

include h hnormal

theorem Dictionary.Represents.reduced_express : d.Reduced d.bounds.size (d.express demand.form) :=
  h.solved.reduced_express (hnormal.mono h.size_le)

theorem Dictionary.Represents.reduced_rowForm :
    (freshFor d demand).Reduced (d.bounds.size + 1) (rowForm d demand) := by
  have hexpress := h.reduced_express hnormal
  refine Reduced.addScaled (d := freshFor d demand) ⟨hexpress.normal.mono (Nat.le_succ _), hexpress.apart⟩
    ⟨Form.isNormal_single (Nat.lt_succ_self _) 1, fun r hr => ?_⟩ _
  rw [Form.coefficient_single, if_neg (h.solved.lt r hr).ne]

theorem Dictionary.Represents.coefficient_rowForm :
    (rowForm d demand).coefficient d.bounds.size = slackSign demand.kind := by
  have hexpress := h.reduced_express hnormal
  have hself : (d.express demand.form).coefficient d.bounds.size = 0 := by
    by_contra hne
    exact Nat.lt_irrefl _ (hexpress.normal.lt_of_coefficient_ne_zero hne)
  rw [rowForm, Form.coefficient_addScaled (hexpress.normal.mono (Nat.le_succ _))
    (Form.isNormal_single (Nat.lt_succ_self _) 1), hself, Form.coefficient_single, if_pos rfl, zero_add, mul_one]

/-- The row of a demand in the tableau is its row in the dictionary. -/
theorem Dictionary.Represents.rowOf_eq (hshows : Shows t d) :
    t.rowOf (demand.kind == .inequality) demand.form.terms demand.form.constant =
      (freshFor d demand).combination (rowForm d demand) := by
  have hsign : (if demand.kind == .inequality then (-1 : Rat) else 1) = slackSign demand.kind := by
    cases demand.kind <;> rfl
  have hexpress : t.express demand.form.terms demand.form.constant = d.combination (d.express demand.form) :=
    hshows.express_eq h.solved (fun p hp => h.unknown _ (Ascending.lt_of_mem hnormal hp)) _
  rw [Tableau.rowOf, role_boundOf, hsign, hexpress, (hshows.fresh h.solved (boundOf demand.kind)).1,
    ← combination_fresh (h.reduced_express hnormal).normal (boundOf demand.kind)]
  exact combination_add (slackSign_ne_zero demand.kind) d.bounds.size

/-- One more demand is represented as well, or it cannot be met with the others, unless the descent for it makes all its
pivots. -/
theorem Dictionary.Represents.answers (hshows : Shows t d) :
    Answers n demands t demand (t.demand (demand.kind == .inequality) demand.form.terms demand.form.constant) := by
  have hrow := h.rowOf_eq hnormal hshows
  obtain ⟨hcolumn, hfresh⟩ := hshows.fresh h.solved (boundOf demand.kind)
  have htakes : Takes (t.fresh (boundOf demand.kind).role).2 (freshFor d demand) (rowForm d demand)
      (t.demand (demand.kind == .inequality) demand.form.terms demand.form.constant) := by
    rw [Tableau.demand_eq, role_boundOf, hrow, hcolumn]
    refine hfresh.takes_addRow ?_ ?_ ?_ ?_ ?_
    · rw [size_freshFor]
      exact (h.solved.fresh (boundOf demand.kind)).mono (Nat.le_succ _)
    · exact h.within.fresh h.solved (boundOf_ne_free demand.kind)
    · rw [size_freshFor]
      exact h.reduced_rowForm hnormal
    · rw [h.coefficient_rowForm hnormal]
      exact slackSign_ne_zero demand.kind
    · exact hshows.coefficient?_fresh h.solved (boundOf demand.kind)
  have hmet := h.met_iff_rowForm hnormal
  generalize t.demand (demand.kind == .inequality) demand.form.terms demand.form.constant = result at htakes ⊢
  cases htakes with
  | imposed hshows' himposes => exact .taken hshows' (himposes.represents h hmet)
  | contradicted hnot =>
    refine .contradicted fun ⟨x, hx⟩ => ?_
    obtain ⟨y, -, hy, hzero⟩ := (hmet x).mp hx
    exact hnot y hy hzero
  | spent hspent =>
    refine .spent ?_
    rwa [Tableau.SpentOn, role_boundOf, hrow]

end

end RectLayout.LinearProgram
