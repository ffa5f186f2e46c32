import Mathlib.Data.List.Forall2
import RectLayout.Proofs.LinearProgram.Climb
import RectLayout.Proofs.LinearProgram.Solution

/-!
# The search meets demands or finds a conflict

A dictionary meets demands if its points are those at which the variable of each demand has the value of its form, and
its own point keeps the bounds of these variables (`Meets`). One more demand is met as well (`Meets.push`), or the form
at which the climb is stuck shows a conflict (`Meets.isValid_conflictOf`), or as many pivots were made as there may be
(`Spent`, `Meets.adds`). So the check of what the search answers never fails, and elimination decides only if the search
has made all its pivots for one demand (`solveDemands_eq`, `exists_spent_of_meet`).
-/

namespace RectLayout.LinearProgram

open Dictionary

variable {n : Nat} {demands : Array Demand} {demand : Demand} {d d' : Dictionary} {e : Form} {slack : Rat}
  {y : Nat → Rat}

/-! ## Dictionaries of demands -/

/-- The variable of each demand has the value of its form. -/
def Extends (n : Nat) (demands : Array Demand) (y : Nat → Rat) : Prop :=
  ∀ (i : Nat) (demand : Demand), demands[i]? = some demand → y (n + i) = demand.form.eval y

/-- The dictionary has the unknowns below `n` and a variable for each demand. -/
structure Meets (n : Nat) (demands : Array Demand) (d : Dictionary) : Prop where
  size : d.bounds.size = n + demands.size
  unknown : ∀ v < n, d.bound v = .free
  bound : ∀ (i : Nat) (demand : Demand), demands[i]? = some demand → d.bound (n + i) = boundOf demand.kind
  normal : ∀ (i : Nat) (demand : Demand), demands[i]? = some demand → demand.form.IsNormal n
  solved : d.Solved (n + demands.size)
  within : d.Within
  holds : ∀ y, Extends n demands y → d.Holds y
  of_holds : ∀ y, d.Holds y → (∀ v, d.bound v = .zero → y v = 0) → Extends n demands y

theorem meets_empty (n : Nat) : Meets n #[] (.empty n) where
  size := Array.size_replicate
  unknown v hv := by simp [Dictionary.bound, empty, hv]
  bound i demand h := by cases h
  normal i demand h := by cases h
  solved := solved_empty n
  within := List.forall_mem_nil _
  holds y _ := List.forall_mem_nil _
  of_holds y _ _ i demand h := by cases h

/-- At the point of the dictionary all demands are met. -/
theorem Meets.holds_value (h : Meets n demands d) {i : Nat} (hi : demands[i]? = some demand) : demand.holds d.value := by
  have hvalue := h.of_holds d.value h.solved.holds_value (fun v hv => h.within.value_eq_zero hv) i demand hi
  have hbound := h.bound i demand hi
  rw [Demand.holds_iff, ← hvalue]
  cases hkind : demand.kind with
  | equality => exact h.within.value_eq_zero (hbound.trans (by rw [hkind, boundOf]))
  | inequality => exact h.within.value_nonneg h.solved (hbound.trans (by rw [hkind, boundOf]))

/-! ## One more variable -/

theorem getElem?_push_cases {demand' : Demand} {i : Nat} (h : (demands.push demand)[i]? = some demand') :
    i = demands.size ∧ demand' = demand ∨ i < demands.size ∧ demands[i]? = some demand' := by
  rw [Array.getElem?_push] at h
  split at h
  · rename_i heq
    exact .inl ⟨heq, (Option.some.inj h).symm⟩
  · exact .inr ⟨(Array.getElem?_eq_some_iff.mp h).1, h⟩

theorem getElem?_push_of_getElem? {demand' : Demand} {i : Nat} (h : demands[i]? = some demand') :
    (demands.push demand)[i]? = some demand' := by
  rw [Array.getElem?_push, if_neg (Array.getElem?_eq_some_iff.mp h).1.ne, h]

/-- A dictionary that gives the variable of one more demand the value of its form meets that demand, too. -/
theorem Meets.push (h : Meets n demands d) (hnormal : demand.form.IsNormal n) {d₁ : Dictionary}
    (hbounds : d₁.bounds = (freshFor d demand).bounds) (hpoints : ∀ y, d₁.Holds y ↔ d.Holds y)
    (heval : ∀ y, d.Holds y → e.eval y = demand.form.eval y) (hgives : Gives d₁ (n + demands.size) e d') :
    Meets n (demands.push demand) d' := by
  have hbound : ∀ v, d'.bound v = if v = n + demands.size then boundOf demand.kind else d.bound v := by
    intro v
    rw [← h.size, ← bound_fresh, Dictionary.bound, hgives.bounds, hbounds, Dictionary.bound]
  refine ⟨?_, fun v hv => ?_, fun i demand' hi => ?_, fun i demand' hi => ?_, ?_, hgives.within, fun y hy => ?_,
    fun y hy hheld i demand' hi => ?_⟩
  · rw [hgives.bounds, hbounds, Array.size_push]
    simp [freshFor, fresh, h.size, Nat.add_assoc]
  · rw [hbound, if_neg (by omega), h.unknown v hv]
  · rcases getElem?_push_cases hi with ⟨rfl, rfl⟩ | ⟨hlt, hi⟩
    · rw [hbound, if_pos rfl]
    · rw [hbound, if_neg (by omega), h.bound i demand' hi]
  · rcases getElem?_push_cases hi with ⟨rfl, rfl⟩ | ⟨-, hi⟩
    · exact hnormal
    · exact h.normal i demand' hi
  · rw [Array.size_push]
    exact hgives.solved
  · have hholds := h.holds y fun i demand' hi => hy i demand' (getElem?_push_of_getElem? hi)
    refine hgives.holds y ((hpoints y).mpr hholds) ?_
    rw [heval y hholds]
    exact hy demands.size demand (by simp)
  · have hheld' : ∀ v, d.bound v = .zero → y v = 0 := by
      intro v hv
      have hlt := lt_size_of_bound (d := d) (v := v) (hv.trans_ne (by decide))
      exact hheld v (by rw [hbound, if_neg (by have := h.size; omega), hv])
    have hheld₁ : ∀ v, d₁.bound v = .zero → y v = 0 := by
      intro v hv
      exact hheld v (by rw [Dictionary.bound, hgives.bounds]; exact hv)
    obtain ⟨hholds₁, hvalue⟩ := hgives.of_holds y hy hheld₁
    have hholds := (hpoints y).mp hholds₁
    rcases getElem?_push_cases hi with ⟨rfl, rfl⟩ | ⟨-, hi⟩
    · rw [hvalue, heval y hholds]
    · exact h.of_holds y hholds hheld' i demand' hi

/-! ## One more demand -/

/-- The demand with an amount added to its form. -/
def Demand.shift (demand : Demand) (amount : Rat) : Demand :=
  { demand with form := { demand.form with constant := demand.form.constant + amount } }

/-- The form with an amount added to it. -/
theorem Demand.eval_shift (demand : Demand) (amount : Rat) :
    (demand.shift amount).form.eval y = demand.form.eval y + amount := by
  rw [Form.eval_eq, Form.eval_eq, shift, add_assoc]

theorem signOf_cases (kind : RowKind) (c : Rat) : signOf kind c = 1 ∨ kind = .equality ∧ signOf kind c = -1 := by
  cases kind with
  | equality =>
    by_cases hc : 0 < c
    · exact .inr ⟨rfl, if_pos hc⟩
    · exact .inl (if_neg hc)
  | inequality => exact .inl rfl

theorem signOf_mul_self (kind : RowKind) (c : Rat) : signOf kind c * signOf kind c = 1 := by
  rcases signOf_cases kind c with h | ⟨-, h⟩ <;> rw [h] <;> norm_num

/-- A constant that is not negative with the sign of its kind is a value that the kind allows. -/
theorem of_signOf_mul_nonneg {kind : RowKind} {c : Rat} (h : 0 ≤ signOf kind c * c) :
    0 ≤ c ∧ (kind = .equality → c = 0) := by
  cases kind with
  | equality =>
    simp only [signOf] at h
    split at h
    · exact absurd h (by linarith)
    · have hc : c = 0 := by linarith
      exact ⟨hc.ge, fun _ => hc⟩
  | inequality =>
    rw [signOf, one_mul] at h
    exact ⟨h, nofun⟩

/-- The sign with which the form of a demand is raised. -/
def climbSign (d : Dictionary) (demand : Demand) : Rat :=
  signOf demand.kind ((freshFor d demand).express demand.form).constant

theorem abs_climbSign_mul {c : Rat} (hc : 0 ≤ c) : Rat.abs (climbSign d demand * c) = c := by
  unfold Rat.abs
  rcases signOf_cases demand.kind ((freshFor d demand).express demand.form).constant with hsign | ⟨-, hsign⟩
  · rw [climbSign, hsign, one_mul, if_pos hc]
  · rw [climbSign, hsign]
    split <;> linarith

/-- The form that a climb for a demand starts with. -/
def climbForm (d : Dictionary) (demand : Demand) : Form :=
  ((freshFor d demand).express demand.form).scale (climbSign d demand)

/-- A climb for the demand makes all the pivots that it may make. -/
def Spent (d : Dictionary) (demand : Demand) : Prop :=
  ∃ d' e', Pivots budget (freshFor d demand) (climbForm d demand) d' e'

/-! ## Conflicts -/

/-- The conflict that a form shows from which no variable can raise it. -/
def conflictOf (n : Nat) (demands : Array Demand) (sign : Rat) (e : Form) : Conflict :=
  ⟨demands.size, sign, e.terms.map fun t => (t.1 - n, t.2)⟩

theorem getD_append_size (demands : Array Demand) (demand : Demand) (rest : List Demand) :
    (demands ++ (demand :: rest).toArray).getD demands.size default = demand := by
  simp [Array.getD_eq_getD_getElem?]

theorem getD_append_of_getElem? {i : Nat} (hi : demands[i]? = some demand) (more : Array Demand) :
    (demands ++ more).getD i default = demand := by
  rw [Array.getD_eq_getD_getElem?, Array.getElem?_append, if_pos (Array.getElem?_eq_some_iff.mp hi).1, hi,
    Option.getD_some]

/-- A point, and beyond the unknowns the values of the demands' forms at it. -/
def extension (n : Nat) (demands : Array Demand) (x : Nat → Rat) : Nat → Rat :=
  fun v => if v < n then x v else (demands.getD (v - n) default).form.eval x

theorem eval_extension {f : Form} (hf : f.IsNormal n) (demands : Array Demand) (x : Nat → Rat) :
    f.eval (extension n demands x) = f.eval x :=
  hf.eval_congr fun _ hv => if_pos hv

theorem extends_extension (hnormal : ∀ (i : Nat) (demand : Demand), demands[i]? = some demand → demand.form.IsNormal n)
    (more : Array Demand) (x : Nat → Rat) : Extends n demands (extension n (demands ++ more) x) := by
  intro i demand hi
  rw [eval_extension (hnormal i demand hi), extension, if_neg (by omega), Nat.add_sub_cancel_left,
    getD_append_of_getElem? hi]

section

variable (h : Meets n demands d)

include h

theorem Meets.bound_freshFor : (freshFor d demand).bound (n + demands.size) = boundOf demand.kind := by
  rw [bound_fresh, if_pos h.size.symm]

/-- The variables of a form at which a climb is stuck belong to demands, and those that raise it to equalities. -/
theorem Meets.exists_of_mem_terms {e' : Form} (hend : Climbing d' (n + demands.size) e')
    (hbounds : ∀ v, d'.bound v = (freshFor d demand).bound v) (hstuck : d'.raising? e' = none) :
    ∀ t ∈ e'.terms, ∃ i demand', t.1 = n + i ∧ demands[i]? = some demand' ∧ (demand'.kind = .equality ∨ t.2 ≤ 0) := by
  intro t ht
  obtain ⟨hcoefficient, hne⟩ := (Form.mem_terms_iff hend.reduced.normal).mp ht
  have hlt := Ascending.lt_of_mem hend.reduced.normal ht
  have hfresh : d'.bound t.1 = d.bound t.1 := by
    rw [hbounds, bound_fresh, if_neg (by have := h.size; omega)]
  have hge : n ≤ t.1 := by
    by_contra hunknown
    have hfree := hend.confined t.1 (hfresh.trans (h.unknown t.1 (by omega)))
    exact hne (hcoefficient.symm.trans hfree)
  have hi : t.1 - n < demands.size := by omega
  refine ⟨t.1 - n, demands[t.1 - n], by omega, Array.getElem?_eq_getElem hi, ?_⟩
  have hbound := h.bound (t.1 - n) _ (Array.getElem?_eq_getElem hi)
  rw [Nat.add_sub_cancel' hge, ← hfresh] at hbound
  cases hkind : demands[t.1 - n].kind with
  | equality => exact .inl rfl
  | inequality =>
    rw [hkind, boundOf] at hbound
    exact .inr (raising?_eq_none hstuck t ht hbound)

/-- What remains of a demand's form has the value of the constant at which a climb for it is stuck. -/
theorem Meets.eval_remainder (hnormal : demand.form.IsNormal n) {sign : Rat} {e' : Form}
    (hraises : Raises (freshFor d demand) (((freshFor d demand).express demand.form).scale sign) d' e')
    (hterms : ∀ t ∈ e'.terms, n ≤ t.1) (rest : List Demand) (x : Nat → Rat) :
    ((conflictOf n demands sign e').remainder (demands ++ (demand :: rest).toArray)).eval x = e'.constant := by
  have hholds : d.Holds (extension n (demands ++ (demand :: rest).toArray) x) :=
    h.holds _ (extends_extension h.normal _ x)
  have hsum : sumAt (fun i => ((demands ++ (demand :: rest).toArray).getD i default).form.eval x)
      (e'.terms.map fun t => (t.1 - n, t.2)) = sumAt (extension n (demands ++ (demand :: rest).toArray) x) e'.terms := by
    rw [sumAt, sumAt, List.map_map]
    refine congrArg List.sum (List.map_congr_left fun t ht => ?_)
    have hge : ¬ t.1 < n := not_lt.mpr (hterms t ht)
    simp only [Function.comp_apply, extension, hge, if_false]
  have heval : e'.eval (extension n (demands ++ (demand :: rest).toArray) x) = sign * demand.form.eval x := by
    rw [hraises.eval_eq _ hholds, Form.eval_scale, Holds.eval_express (d := freshFor d demand) hholds,
      eval_extension hnormal]
  rw [Conflict.eval_remainder, conflictOf, hsum]
  simp only [getD_append_size]
  rw [← heval, Form.eval_eq, add_sub_cancel_left]

/-- A form at which a climb is stuck is the remainder of a conflict. -/
theorem Meets.isValid_conflictOf (hnormal : demand.form.IsNormal n) {sign : Rat} {e' : Form}
    (hsign : demand.kind = .equality ∨ 0 < sign) (hend : Climbing d' (n + demands.size) e')
    (hraises : Raises (freshFor d demand) (((freshFor d demand).express demand.form).scale sign) d' e')
    (hstuck : d'.raising? e' = none) (rest : List Demand) :
    (conflictOf n demands sign e').isValid (demands ++ (demand :: rest).toArray) := by
  have hterms := h.exists_of_mem_terms hend hraises.bound_eq hstuck
  have hmultiples : ∀ m ∈ (conflictOf n demands sign e').multiples, ∃ demand', demands[m.1]? = some demand' ∧
      (demand'.kind = .equality ∨ m.2 ≤ 0) := by
    refine List.forall_mem_map.mpr fun t ht => ?_
    obtain ⟨i, demand', hi, hdemand, hkind⟩ := hterms t ht
    exact ⟨demand', by rwa [hi, Nat.add_sub_cancel_left], hkind⟩
  have hge : ∀ t ∈ e'.terms, n ≤ t.1 := fun t ht => by
    obtain ⟨i, -, hi, -⟩ := hterms t ht
    omega
  have hvalue := h.eval_remainder hnormal hraises hge rest
  have hremainder : ((conflictOf n demands sign e').remainder (demands ++ (demand :: rest).toArray)).IsNormal n := by
    refine Conflict.isNormal_remainder ?_ fun m hm => ?_
    · rwa [conflictOf, getD_append_size]
    · obtain ⟨demand', hi, -⟩ := hmultiples m hm
      rw [getD_append_of_getElem? hi]
      exact h.normal m.1 demand' hi
  have hnil := Form.terms_eq_nil_of_eval hremainder hvalue
  have hconstant := hvalue 0
  rw [Form.eval_zero] at hconstant
  simp only [Conflict.isValid, Bool.and_eq_true, Bool.or_eq_true, decide_eq_true_eq, beq_iff_eq, List.all_eq_true,
    List.isEmpty_iff]
  refine ⟨⟨⟨⟨by simp [conflictOf], ?_⟩, fun m hm => ?_⟩, hnil⟩, ?_⟩
  · rwa [conflictOf, getD_append_size]
  · obtain ⟨demand', hi, hkind⟩ := hmultiples m hm
    exact ⟨(Array.getElem?_eq_some_iff.mp hi).1, by rwa [getD_append_of_getElem? hi]⟩
  · rw [hconstant]
    exact hend.negative

/-- What comes of one more demand: it is met up to the slack, or it is in conflict with the others, or the climb for it
makes all its pivots. -/
inductive Adds (n : Nat) (slack : Rat) (demands : Array Demand) (d : Dictionary) (demand : Demand) : Added → Prop
  | met {d' : Dictionary} {shift : Rat} (hmeets : Meets n (demands.push (demand.shift shift)) d')
      (hshift : shift = 0 ∨ Rat.abs shift < slack) : Adds n slack demands d demand (.met d' shift)
  | contradicted {sign : Rat} {multiples : List (Nat × Rat)}
      (hvalid : ∀ rest, (⟨demands.size, sign, multiples.map fun t => (t.1 - n, t.2)⟩ : Conflict).isValid
        (demands ++ (demand :: rest).toArray)) : Adds n slack demands d demand (.contradicted sign multiples)
  | exhausted (hspent : Spent d demand) : Adds n slack demands d demand .exhausted

/-- What a climb for one more demand comes to. -/
theorem Meets.adds_of_ends (hnormal : demand.form.IsNormal n) {climbed : Climb}
    (hclimbing : Climbing (freshFor d demand) (n + demands.size) (climbForm d demand))
    (hends : Ends budget (freshFor d demand) (climbForm d demand) climbed) :
    Adds n slack demands d demand (climbed.added slack (climbSign d demand) (n + demands.size)) := by
  have hfree : (freshFor d demand).bound (n + demands.size) ≠ .free := h.bound_freshFor ▸ boundOf_ne_free demand.kind
  have hsquare : climbSign d demand * climbSign d demand = 1 := signOf_mul_self _ _
  have hback : ∀ {d' : Dictionary} {e' : Form} (y : Nat → Rat), Raises (freshFor d demand) (climbForm d demand) d' e' →
      d.Holds y → climbSign d demand * e'.eval y = demand.form.eval y := by
    intro d' e' y hraises hy
    rw [hraises.eval_eq y hy, climbForm, Form.eval_scale, Holds.eval_express (d := freshFor d demand) hy, ← mul_assoc,
      hsquare, one_mul]
  cases climbed with
  | reached d' e' w =>
    obtain ⟨hraises, hgives⟩ := hends.gives hclimbing hfree (left_ne_zero_of_mul_eq_one hsquare)
    refine .met (h.push hnormal hraises.bounds hraises.holds_iff (fun y hy => ?_) hgives) (.inl rfl)
    rw [Form.eval_scale, hback y hraises hy, Demand.eval_shift, add_zero]
  | stuck d' e' =>
    cases hends with
    | stuck _ hpivots hstuck =>
      obtain ⟨hend, hraises⟩ := hpivots.raises hclimbing
      rw [Climb.added]
      split
      · rename_i hless
        refine .met (h.push hnormal hraises.bounds hraises.holds_iff (fun y hy => ?_) (hend.gives_place ?_ _)) (.inr ?_)
        · rw [Demand.eval_shift, ← hback y hraises hy, Form.eval_scale, Form.eval_eq, Form.eval_eq e']
          ring
        · rwa [hraises.bound_eq]
        · rwa [abs_climbSign_mul (neg_nonneg.mpr hend.negative.le)]
      · refine .contradicted fun rest => h.isValid_conflictOf hnormal ?_ hend hraises hstuck rest
        rcases signOf_cases demand.kind ((freshFor d demand).express demand.form).constant with hone | ⟨hkind, -⟩
        · exact .inr (by rw [climbSign, hone]; exact one_pos)
        · exact .inl hkind
  | exhausted =>
    cases hends with
    | exhausted hpivots => exact .exhausted ⟨_, _, hpivots⟩

/-- One more demand is met, or it is in conflict with the others, unless the climb for it makes all its pivots. -/
theorem Meets.adds (hnormal : demand.form.IsNormal n) : Adds n slack demands d demand (d.add slack demand) := by
  have hbound : (freshFor d demand).bound (n + demands.size) = boundOf demand.kind := h.bound_freshFor
  have hfree : (freshFor d demand).bound (n + demands.size) ≠ .free := hbound ▸ boundOf_ne_free demand.kind
  have hsolved : (freshFor d demand).Solved (n + demands.size) := h.solved.fresh _
  have hwithin : (freshFor d demand).Within := h.within.fresh (h.size ▸ h.solved) (boundOf_ne_free demand.kind)
  have hreduced := hsolved.reduced_express (hnormal.mono (Nat.le_add_right n demands.size))
  have heval : ∀ y, d.Holds y → ((freshFor d demand).express demand.form).eval y = (demand.shift 0).form.eval y := by
    intro y hy
    rw [Holds.eval_express (d := freshFor d demand) hy, Demand.eval_shift, add_zero]
  have hadd : d.add slack demand = (freshFor d demand).addForm slack demand.kind (n + demands.size)
      ((freshFor d demand).express demand.form) := by
    rw [← h.size]
    rfl
  rw [hadd, addForm]
  cases hfreeIn : (freshFor d demand).freeIn? ((freshFor d demand).express demand.form) with
  | some w =>
    obtain ⟨hw, hne⟩ := freeIn?_eq_some hreduced.normal hfreeIn
    have hgives := gives_insertOut_of_free hsolved hreduced hwithin hw hne
    exact .met (h.push hnormal rfl (fun _ => Iff.rfl) heval hgives) (.inl rfl)
  | none =>
    have hconfined := freeIn?_eq_none hreduced.normal hfreeIn
    dsimp only
    split
    · rename_i hnonneg
      obtain ⟨hconstant, hzero⟩ := of_signOf_mul_nonneg hnonneg
      have hgives := gives_place hsolved hreduced hwithin hconfined hfree hconstant fun hm =>
        hzero (boundOf_eq_zero_iff.mp (hbound.symm.trans hm))
      exact .met (h.push hnormal rfl (fun _ => Iff.rfl) heval hgives) (.inl rfl)
    · rename_i hnegative
      refine h.adds_of_ends hnormal ⟨hsolved, hwithin, hreduced.scale _, hconfined.scale hreduced.normal _, ?_⟩
        (ends_climb budget _ _)
      rw [climbForm, Form.constant_scale]
      exact not_le.mp hnegative

end

/-! ## All demands -/

/-- The demands as they are met are the given ones up to the slack, and the dictionary meets them. -/
structure MeetsWithin (n : Nat) (slack : Rat) (demands : List Demand) (m : Met) : Prop where
  meets : Meets n m.demands m.dictionary
  within : List.Forall₂ (fun met demand => met.isWithin slack demand) m.demands.toList demands

/-- The search for `demands` after `done` ends with all of them met, or with a conflict of the first that is not, or with
a climb for one of them that makes all its pivots. -/
inductive Finds (n : Nat) (slack : Rat) (m : Met) (done demands : List Demand) : Search → Prop
  | met {m' : Met} (h : MeetsWithin n slack (done ++ demands) m') : Finds n slack m done demands (.met m')
  | conflict {before after : List Demand} {demand : Demand} {m' : Met} {c : Conflict}
      (hsplit : demands = before ++ demand :: after) (h : MeetsWithin n slack (done ++ before) m')
      (hvalid : c.isValid (m'.demands ++ (demand :: after).toArray)) :
      Finds n slack m done demands (.conflict m' c)
  | exhausted {before after : List Demand} {demand : Demand} {m' : Met} (hsplit : demands = before ++ demand :: after)
      (hrun : meet n slack m before = .met m') (hspent : Spent m'.dictionary demand) :
      Finds n slack m done demands .exhausted

theorem meetsWithin_empty (n : Nat) (slack : Rat) : MeetsWithin n slack [] ⟨#[], .empty n⟩ := ⟨meets_empty n, .nil⟩

theorem Demand.isWithin_shift {shift : Rat} (hslack : 0 ≤ slack) (hshift : shift = 0 ∨ Rat.abs shift < slack) :
    (demand.shift shift).isWithin slack demand := by
  have hle : Rat.abs shift ≤ slack := by
    rcases hshift with rfl | hless
    · exact hslack
    · exact hless.le
  simp [isWithin, Demand.shift, hle]

variable {m m' : Met} {done rest : List Demand}

/-- The search goes on with the demand that is met. -/
theorem Finds.cons {shift : Rat} {result : Search} (hadd : m.dictionary.add slack demand = .met d' shift)
    (h : Finds n slack ⟨m.demands.push (demand.shift shift), d'⟩ (done ++ [demand]) rest result) :
    Finds n slack m done (demand :: rest) result := by
  cases h with
  | met hmet => exact .met (by rwa [List.append_cons])
  | conflict hsplit hbefore hvalid =>
    exact .conflict (by rw [hsplit, List.cons_append]) (by rwa [List.append_cons]) hvalid
  | exhausted hsplit hrun hspent =>
    refine .exhausted (by rw [hsplit, List.cons_append]) ?_ hspent
    rw [meet, hadd]
    exact hrun

theorem finds_meet (hslack : 0 ≤ slack) (hm : MeetsWithin n slack done m) {demands : List Demand}
    (hnormal : ∀ demand ∈ demands, demand.form.IsNormal n) : Finds n slack m done demands (meet n slack m demands) := by
  induction demands generalizing m done with
  | nil => exact .met (by rwa [List.append_nil])
  | cons demand rest ih =>
    rw [List.forall_mem_cons] at hnormal
    have hadds : Adds n slack m.demands m.dictionary demand (m.dictionary.add slack demand) := hm.meets.adds hnormal.1
    rw [meet]
    generalize hadd : m.dictionary.add slack demand = added at hadds ⊢
    cases hadds with
    | met hmeets hshift =>
      refine Finds.cons hadd (ih ⟨hmeets, ?_⟩ hnormal.2)
      rw [Array.toList_push]
      exact List.rel_append hm.within (.cons (Demand.isWithin_shift hslack hshift) .nil)
    | contradicted hvalid => exact .conflict (List.nil_append _).symm (by rwa [List.append_nil]) (hvalid rest)
    | exhausted hspent => exact .exhausted (List.nil_append _).symm rfl hspent

/-! ## The answers of the search -/

theorem MeetsWithin.isValid {demands : List Demand} (h : MeetsWithin n slack demands m) : m.isValid slack demands := by
  obtain ⟨hlength, hzip⟩ := List.forall₂_iff_zip.mp h.within
  simp only [Met.isValid, Bool.and_eq_true, beq_iff_eq, List.all_eq_true, Array.all_eq_true_iff_forall_mem]
  refine ⟨⟨by simpa using hlength, fun p hp => hzip hp⟩, fun demand hdemand => ?_⟩
  obtain ⟨i, hi⟩ := Array.mem_iff_getElem?.mp hdemand
  exact h.meets.holds_value hi

section

variable {demands : List Demand} (hslack : 0 ≤ slack) (hnormal : ∀ demand ∈ demands, demand.form.IsNormal n)

include hslack hnormal

/-- The answer is that of the search, unless there is none: what is checked of it always holds. -/
theorem solveDemands_eq : solveDemands n slack demands = match meet n slack ⟨#[], .empty n⟩ demands with
    | .met m => .ok ⟨m.demands.toList, m.dictionary.value⟩
    | .conflict _ c => .error c.index
    | .exhausted => eliminateDemands n demands := by
  have hfinds := finds_meet hslack (meetsWithin_empty n slack) hnormal
  unfold solveDemands
  generalize meet n slack ⟨#[], .empty n⟩ demands = result at hfinds ⊢
  cases hfinds with
  | met h => exact if_pos h.isValid
  | conflict hsplit h hvalid =>
    rename_i before after demand m c
    have hsize : m.demands.size = before.length := by simpa using h.within.length_eq
    have htake : demands.take m.demands.size = before := by rw [hsplit, hsize, List.take_left]
    have hdrop : demands.drop m.demands.size = demand :: after := by rw [hsplit, hsize, List.drop_left]
    refine if_pos ?_
    rw [htake, hdrop, hvalid, Bool.and_true]
    exact h.isValid
  | exhausted => rfl

/-- Elimination is asked only if a climb for one of the demands makes all its pivots. -/
theorem exists_spent_of_meet (h : meet n slack ⟨#[], .empty n⟩ demands = .exhausted) :
    ∃ before demand after m, demands = before ++ demand :: after ∧ meet n slack ⟨#[], .empty n⟩ before = .met m ∧
      Spent m.dictionary demand := by
  have hfinds := finds_meet hslack (meetsWithin_empty n slack) hnormal
  rw [h] at hfinds
  cases hfinds with
  | exhausted hsplit hrun hspent => exact ⟨_, _, _, _, hsplit, hrun, hspent⟩

end

end RectLayout.LinearProgram
