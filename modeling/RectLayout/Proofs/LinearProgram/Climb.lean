import RectLayout.Proofs.LinearProgram.Dictionary

/-!
# Raising a form

A pivot of a climb lets the first variable that raises a negative form enter and the basic variable with the least room
leave, as long as the form stays negative (`Pivots`). It keeps the bounds and the points of the dictionary and the values
of the form, and the form does not fall (`Climbing.pivot`). So a climb ends where the form can reach zero, or where
nothing raises it (`ends_climb`), and it gives up only after all the pivots that it may make
(`climb_eq_exhausted_iff`).

At its end a new variable gets the value of the form. There are three ways to do so (`gives_insert`, `gives_insertOut`,
`gives_place`), and each leaves a dictionary whose points are those at which the variable has that value.
-/

namespace RectLayout.LinearProgram.Dictionary

variable {d d' : Dictionary} {k m v w fuel : Nat} {e e' f : Form} {c growth : Rat} {y : Nat → Rat}

/-! ## Pivots -/

/-- Some pivots that raise a form. -/
inductive Pivots : Nat → Dictionary → Form → Dictionary → Form → Prop
  | refl (d : Dictionary) (e : Form) : Pivots 0 d e d e
  | step {k v w : Nat} {d d' : Dictionary} {e e' f : Form} {c growth : Rat} (hraising : d.raising? e = some (v, c))
      (hleaving : d.leaving? v = some (w, f, growth)) (hgrowth : growth < -e.constant / c)
      (hrest : Pivots k (d.exchange v w f) (e.substitute v (f.solveFor v w)) d' e') : Pivots (k + 1) d e d' e'

/-- A negative form in variables that are neither basic nor free, over a dictionary with its values within the bounds. -/
structure Climbing (d : Dictionary) (m : Nat) (e : Form) : Prop where
  solved : d.Solved m
  within : d.Within
  reduced : d.Reduced m e
  confined : d.Confined e
  negative : e.constant < 0

/-- The same bounds and points, where the form has the same values, and a constant that has not fallen. -/
structure Raises (d : Dictionary) (e : Form) (d' : Dictionary) (e' : Form) : Prop extends d.Alike d' where
  eval_eq : ∀ y, d.Holds y → e'.eval y = e.eval y
  le : e.constant ≤ e'.constant

theorem Raises.refl (d : Dictionary) (e : Form) : Raises d e d e := ⟨.refl d, fun _ _ => rfl, le_rfl⟩

theorem Raises.trans {d'' : Dictionary} {e'' : Form} (h : Raises d e d' e') (h' : Raises d' e' d'' e'') :
    Raises d e d'' e'' :=
  ⟨h.toAlike.trans h'.toAlike, fun y hy => (h'.eval_eq y ((h.holds_iff y).mpr hy)).trans (h.eval_eq y hy),
    h.le.trans h'.le⟩

/-- What a pivot of a climb keeps. -/
theorem Climbing.pivot (h : Climbing d m e) (hraising : d.raising? e = some (v, c))
    (hleaving : d.leaving? v = some (w, f, growth)) (hgrowth : growth < -e.constant / c) :
    Climbing (d.exchange v w f) m (e.substitute v (f.solveFor v w)) ∧
      Raises d e (d.exchange v w f) (e.substitute v (f.solveFor v w)) := by
  obtain ⟨hv, hc, hpos⟩ := raising?_eq_some h.reduced.normal hraising
  have hexchange := h.solved.within_exchange_of_leaving? h.within hv hleaving
  obtain ⟨hmem, hfalls, rfl, -⟩ := leaving?_eq_some hleaving
  obtain ⟨-, hnonneg, hconfined⟩ := h.within _ hmem
  have hw : d.bound w ≠ .free := by
    intro hfree
    cases hfree.symm.trans hfalls.1
  have hf : f.coefficient v ≠ 0 := hfalls.2.ne
  have hroom : -f.constant / f.coefficient v = room v (w, f) := by rw [room, div_neg, neg_div]
  have hgrows : 0 ≤ room v (w, f) := div_nonneg (hnonneg hfalls.1) (neg_nonneg.mpr hfalls.2.le)
  have hconstant : (e.substitute v (f.solveFor v w)).constant = e.constant + c * room v (w, f) := by
    rw [Form.constant_substitute, Form.constant_solveFor, hroom, hc]
  have hsubstitute : d.Confined (e.substitute v (f.solveFor v w)) :=
    h.confined.substitute h.reduced.normal (h.solved.confined_solveFor hmem hw (hconfined hfalls.1))
      ((h.solved.reduced _ hmem).normal.solveFor (h.solved.lt _ hmem) v)
  refine ⟨⟨h.solved.exchange hmem hf, hexchange, h.reduced.exchange h.solved hmem hf, hsubstitute, ?_⟩,
    ⟨⟨rfl, fun y => holds_exchange_iff h.solved hmem hf⟩, fun y hy => ?_, ?_⟩⟩
  · rw [lt_div_iff₀ hpos] at hgrowth
    rw [hconstant]
    linarith
  · exact Holds.eval_substitute h.solved hmem hf hy h.reduced.normal
  · rw [hconstant]
    exact le_add_of_nonneg_right (mul_nonneg hpos.le hgrows)

/-- What any number of them keeps. -/
theorem Pivots.raises (h : Pivots k d e d' e') (hclimbing : Climbing d m e) :
    Climbing d' m e' ∧ Raises d e d' e' := by
  induction h with
  | refl d e => exact ⟨hclimbing, .refl d e⟩
  | step hraising hleaving hgrowth _ ih =>
    obtain ⟨hnext, hraises⟩ := hclimbing.pivot hraising hleaving hgrowth
    exact ⟨(ih hnext).1, hraises.trans (ih hnext).2⟩

/-! ## The end of a climb -/

/-- A climb of at most `fuel` pivots ends where growth of a variable makes the form zero before any basic variable is,
or where nothing raises the form, or after the last pivot. -/
inductive Ends (fuel : Nat) (d : Dictionary) (e : Form) : Climb → Prop
  | reached {k v : Nat} {d' : Dictionary} {e' : Form} {c : Rat} (hlt : k < fuel) (hpivots : Pivots k d e d' e')
      (hraising : d'.raising? e' = some (v, c))
      (hroom : ∀ w f growth, d'.leaving? v = some (w, f, growth) → -e'.constant / c ≤ growth) :
      Ends fuel d e (.reached d' e' v)
  | stuck {k : Nat} {d' : Dictionary} {e' : Form} (hlt : k < fuel) (hpivots : Pivots k d e d' e')
      (hraising : d'.raising? e' = none) : Ends fuel d e (.stuck d' e')
  | exhausted {d' : Dictionary} {e' : Form} (hpivots : Pivots fuel d e d' e') : Ends fuel d e .exhausted

theorem Ends.step {end' : Climb} (hraising : d.raising? e = some (v, c))
    (hleaving : d.leaving? v = some (w, f, growth)) (hgrowth : growth < -e.constant / c)
    (h : Ends fuel (d.exchange v w f) (e.substitute v (f.solveFor v w)) end') : Ends (fuel + 1) d e end' := by
  cases h with
  | reached hlt hpivots hraising' hroom =>
    exact .reached (Nat.succ_lt_succ hlt) (.step hraising hleaving hgrowth hpivots) hraising' hroom
  | stuck hlt hpivots hraising' =>
    exact .stuck (Nat.succ_lt_succ hlt) (.step hraising hleaving hgrowth hpivots) hraising'
  | exhausted hpivots => exact .exhausted (.step hraising hleaving hgrowth hpivots)

theorem ends_climb (fuel : Nat) (d : Dictionary) (e : Form) : Ends fuel d e (climb fuel d e) := by
  fun_induction climb fuel d e with
  | case1 d e => exact .exhausted (.refl d e)
  | case2 fuel d e hraising => exact .stuck (Nat.succ_pos fuel) (.refl d e) hraising
  | case3 fuel d e v c hraising w f growth hleaving hgrowth ih => exact ih.step hraising hleaving hgrowth
  | case4 fuel d e v c hraising w f growth hleaving hgrowth =>
    refine .reached (Nat.succ_pos fuel) (.refl d e) hraising fun w' f' growth' hleaving' => ?_
    obtain ⟨-, -, rfl⟩ : w = w' ∧ f = f' ∧ growth = growth' := by simpa using hleaving.symm.trans hleaving'
    exact not_lt.mp hgrowth
  | case5 fuel d e v c hraising hleaving =>
    refine .reached (Nat.succ_pos fuel) (.refl d e) hraising fun w f growth hleaving' => ?_
    cases hleaving.symm.trans hleaving'

theorem Pivots.climb_eq (h : Pivots k d e d' e') (fuel : Nat) : climb (k + fuel) d e = climb fuel d' e' := by
  induction h with
  | refl d e => rw [Nat.zero_add]
  | @step k v w d d' e e' f c growth hraising hleaving hgrowth _ ih =>
    have hsucc : k + 1 + fuel = (k + fuel) + 1 := by omega
    rw [hsucc, climb, hraising]
    dsimp only
    rw [hleaving]
    dsimp only
    rw [if_pos hgrowth, ih]

/-- A climb gives up only after all the pivots that it may make. -/
theorem climb_eq_exhausted_iff : climb fuel d e = .exhausted ↔ ∃ d' e', Pivots fuel d e d' e' := by
  constructor
  · intro h
    have hends := ends_climb fuel d e
    rw [h] at hends
    cases hends with
    | exhausted hpivots => exact ⟨_, _, hpivots⟩
  · rintro ⟨d', e', hpivots⟩
    exact hpivots.climb_eq 0

/-! ## The value of a form for a new variable -/

/-- The points of `d'` are those of `d` at which the variable `m` has the value of `e`. Where variables that are held at
zero are zero, that is. -/
structure Gives (d : Dictionary) (m : Nat) (e : Form) (d' : Dictionary) : Prop where
  bounds : d'.bounds = d.bounds
  solved : d'.Solved (m + 1)
  within : d'.Within
  holds : ∀ y, d.Holds y → y m = e.eval y → d'.Holds y
  of_holds : ∀ y, d'.Holds y → (∀ v, d.bound v = .zero → y v = 0) → d.Holds y ∧ y m = e.eval y

section

variable (hsolved : d.Solved m) (he : d.Reduced m e)

include hsolved he

/-- The variable is basic. -/
theorem gives_insert (hwithin : d.Within) (hconfined : d.Confined e) (hbound : d.bound m ≠ .zero)
    (hnonneg : 0 ≤ e.constant) : Gives d m e (d.insert m e) where
  bounds := rfl
  solved := hsolved.insert he
  within := List.forall_mem_cons.mpr
    ⟨⟨hbound, fun _ => hnonneg, fun _ => hconfined⟩, fun r hr => (hwithin r hr).of_bounds rfl⟩
  holds _ hy hm := holds_insert_iff.mpr ⟨hm, hy⟩
  of_holds _ hy _ := (holds_insert_iff.mp hy).symm

/-- Another variable is basic instead. -/
theorem gives_insertOut (hv : e.coefficient v ≠ 0) (hwithin : (d.insertOut m v e).Within) :
    Gives d m e (d.insertOut m v e) := by
  have hinsert := hsolved.insert he
  have hiff : ∀ y, (d.insertOut m v e).Holds y ↔ y m = e.eval y ∧ d.Holds y := fun y =>
    (holds_exchange_iff hinsert List.mem_cons_self hv).trans holds_insert_iff
  exact ⟨rfl, hinsert.exchange List.mem_cons_self hv, hwithin, fun y hy hm => (hiff y).mpr ⟨hm, hy⟩,
    fun y hy _ => ((hiff y).mp hy).symm⟩

/-- Free variables take any value that a form needs. -/
theorem gives_insertOut_of_free (hwithin : d.Within) (hfree : d.bound v = .free) (hv : e.coefficient v ≠ 0) :
    Gives d m e (d.insertOut m v e) := by
  refine gives_insertOut hsolved he hv (within_exchange_of_free (hsolved.insert he) List.mem_cons_self ?_ hfree)
  exact List.forall_mem_cons.mpr ⟨fun hne => absurd rfl hne, fun r hr _ => (hwithin r hr).of_bounds rfl⟩

/-- A variable that grows until the form is zero leaves the values within their bounds, if these have room for it. -/
theorem gives_insertOut_of_room (hwithin : d.Within) (hconfined : d.Confined e) (hbound : d.bound m ≠ .free)
    (hv : d.bound v = .nonNegative) (hcoefficient : e.coefficient v ≠ 0) (hgrowth : 0 ≤ -e.constant / e.coefficient v)
    (hroom : ∀ r ∈ d.rows, d.Falls v r → -e.constant / e.coefficient v ≤ room v r) :
    Gives d m e (d.insertOut m v e) := by
  refine gives_insertOut hsolved he hcoefficient ?_
  refine within_exchange (hsolved.insert he) List.mem_cons_self ?_ hv hbound hconfined hgrowth ?_
  · exact List.forall_mem_cons.mpr ⟨fun hne => absurd rfl hne, fun r hr _ => (hwithin r hr).of_bounds rfl⟩
  · refine List.forall_mem_cons.mpr ⟨fun hne => absurd rfl hne, fun r hr _ hr' => ?_⟩
    exact nonneg_of_le_room ((hwithin r hr).nonneg hr') hr' hgrowth (hroom r hr)

/-- A variable that may have the value of a form at the dictionary's point is placed. -/
theorem gives_place (hwithin : d.Within) (hconfined : d.Confined e) (hbound : d.bound m ≠ .free)
    (hnonneg : 0 ≤ e.constant) (hzero : d.bound m = .zero → e.constant = 0) : Gives d m e (d.place m e) := by
  unfold place
  split
  · rename_i hm
    split
    · rename_i w c hfind
      have hw : d.bound w = .nonNegative := by simpa using List.find?_some hfind
      obtain ⟨hc, hne⟩ := (Form.mem_terms_iff he.normal).mp (List.mem_of_find?_eq_some hfind)
      have hgrowth : -e.constant / e.coefficient w = 0 := by rw [hzero hm, neg_zero, zero_div]
      refine gives_insertOut_of_room hsolved he hwithin hconfined hbound hw (hc.symm ▸ hne) hgrowth.ge ?_
      intro r hr hfalls
      rw [hgrowth]
      exact div_nonneg ((hwithin r hr).nonneg hfalls.1) (by linarith [hfalls.2])
    · rename_i hfind
      refine ⟨rfl, hsolved.mono (Nat.le_succ m), hwithin, fun y hy _ => hy, fun y hy hheld => ⟨hy, ?_⟩⟩
      -- all variables of the form are held at zero
      have hterms : ∀ t ∈ e.terms, y t.1 = 0 := by
        intro t ht
        have hnot : ¬ d.bound t.1 = .nonNegative := by simpa using List.find?_eq_none.mp hfind t ht
        exact hheld _ ((hconfined.nonNegative_or_zero he.normal ht).resolve_left hnot)
      rw [hheld m hm, Form.eval_eq_constant hterms, hzero hm]
  · rename_i hm
    exact gives_insert hsolved he hwithin hconfined hm hnonneg

end

/-- Where a climb is stuck, the form can count as zero, whichever sign it is taken with. -/
theorem Climbing.gives_place (h : Climbing d m e) (hbound : d.bound m ≠ .free) (sign : Rat) :
    Gives d m ({ e with constant := 0 }.scale sign) (d.place m ({ e with constant := 0 }.scale sign)) := by
  have hreduced : d.Reduced m { e with constant := 0 } := ⟨h.reduced.normal, h.reduced.apart⟩
  have hconfined : d.Confined { e with constant := 0 } := h.confined
  have hzero : ({ e with constant := 0 }.scale sign).constant = 0 := by rw [Form.constant_scale, mul_zero]
  exact Dictionary.gives_place h.solved (hreduced.scale sign) h.within (hconfined.scale hreduced.normal sign) hbound
    hzero.ge fun _ => hzero

/-- Where a climb has reached zero, the variable that would grow further can be basic instead of the new one, whichever
sign the form is taken with. -/
theorem Ends.gives {sign : Rat} (hclimbing : Climbing d m e) (h : Ends fuel d e (.reached d' e' v))
    (hbound : d.bound m ≠ .free) (hsign : sign ≠ 0) :
    Raises d e d' e' ∧ Gives d' m (e'.scale sign) (d'.insertOut m v (e'.scale sign)) := by
  cases h with
  | reached hlt hpivots hraising hroom =>
    obtain ⟨hend, hraises⟩ := hpivots.raises hclimbing
    obtain ⟨hv, hc, hpos⟩ := raising?_eq_some hend.reduced.normal hraising
    have hcoefficient := Form.coefficient_scale hend.reduced.normal sign v
    have hgrowth : -(e'.scale sign).constant / (e'.scale sign).coefficient v = -e'.constant / e'.coefficient v := by
      rw [hcoefficient, Form.constant_scale, ← mul_neg, mul_div_mul_left _ _ hsign]
    refine ⟨hraises, gives_insertOut_of_room hend.solved (hend.reduced.scale sign) hend.within
      (hend.confined.scale hend.reduced.normal sign) ?_ hv ?_ ?_ ?_⟩
    · rwa [hraises.bound_eq]
    · rw [hcoefficient, hc]
      exact mul_ne_zero hsign hpos.ne'
    · rw [hgrowth, hc]
      exact div_nonneg (by linarith [hend.negative]) hpos.le
    · intro r hr hfalls
      rw [hgrowth, hc]
      cases hleaving : d'.leaving? v with
      | none => exact absurd hfalls (leaving?_eq_none hleaving r hr)
      | some best => exact (hroom _ _ _ hleaving).trans ((leaving?_eq_some hleaving).2.2.2 r hr hfalls)

end RectLayout.LinearProgram.Dictionary
