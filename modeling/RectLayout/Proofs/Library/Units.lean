import Mathlib.Algebra.Order.Field.Rat
import Mathlib.Tactic.Linarith
import RectLayout.Library.Export
import RectLayout.Library.Import

/-!
# Lengths and layers in a library

A length that is a whole number of units within 64 bits is written to a library and read back without loss
(`fromUnits_toUnits`). Of any other length the nearest such number is written, which is in the range of 64 bits
(`toUnits_inRange`) and in the order of the lengths (`toUnits_mono`); read back and written again it is the same
(`toUnits_fromUnits`). A layer table that gives different names different numbers is undone by its reverse
(`LayerTable.lookup_reverse`).
-/

namespace RectLayout

/-! ## Lengths -/

namespace Library

/-- A whole number of units within 64 bits. -/
def Fits (ratio v : Rat) : Prop := ∃ n : Int, v * ratio = n ∧ Scalar.minInt64 ≤ n ∧ n ≤ Scalar.maxInt64

instance (ratio v : Rat) : Decidable (Fits ratio v) := by
  refine decidable_of_iff ((v * ratio).den = 1 ∧ Scalar.minInt64 ≤ (v * ratio).num ∧
    (v * ratio).num ≤ Scalar.maxInt64) ⟨fun h => ⟨(v * ratio).num, ?_, h.2⟩, ?_⟩
  · exact (Rat.den_eq_one_iff _).mp h.1 |>.symm
  · rintro ⟨n, hn, hrange⟩
    rw [hn, Rat.num_intCast, Rat.den_intCast]
    exact ⟨rfl, hrange⟩

theorem roundRat_intCast (n : Int) : Scalar.roundRat n = n := by
  unfold Scalar.roundRat
  split
  · have hhalf : (1 / 2 : Rat).floor = 0 := by decide +kernel
    rw [add_comm, Rat.floor_add_intCast, hhalf, zero_add]
  · have hhalf : (-(1 / 2) : Rat).ceil = 0 := by decide +kernel
    rw [sub_eq_neg_add, Rat.ceil_add_intCast, hhalf, zero_add]

theorem toUnits_eq_clamp (ratio v : Rat) :
    toUnits ratio v = max Scalar.minInt64 (min Scalar.maxInt64 (Scalar.roundRat (v * ratio))) := by
  show max Scalar.minInt64 (min Scalar.maxInt64
    ((Scalar.roundRat (v * ratio) : Rat).num.tdiv (Scalar.roundRat (v * ratio) : Rat).den)) = _
  rw [Rat.num_intCast, Rat.den_intCast, Nat.cast_one, Int.tdiv_one]

/-- A whole number of units within 64 bits is written as it is. -/
theorem toUnits_eq {ratio v : Rat} {n : Int} (hn : v * ratio = n) (hmin : Scalar.minInt64 ≤ n)
    (hmax : n ≤ Scalar.maxInt64) : toUnits ratio v = n := by
  rw [toUnits_eq_clamp, hn, roundRat_intCast, min_eq_right hmax, max_eq_right hmin]

/-- A length that fits is read back as it was. -/
theorem fromUnits_toUnits {config : ImportConfig Rat} {v : Rat} (hscale : 0 < config.scale)
    (h : Fits config.scale v) : fromUnits config (toUnits config.scale v) = v := by
  obtain ⟨n, hn, hmin, hmax⟩ := h
  rw [toUnits_eq hn hmin hmax]
  show (n : Rat) / config.scale = v
  rw [← hn, mul_div_cancel_right₀ v hscale.ne']

theorem roundRat_mono {x y : Rat} (h : x ≤ y) : Scalar.roundRat x ≤ Scalar.roundRat y := by
  unfold Scalar.roundRat
  split
  · rename_i hx
    rw [if_pos (hx.trans h)]
    exact Rat.floor_monotone (add_le_add_left h (1 / 2))
  · rename_i hx
    have hceil : (x - 1 / 2).ceil ≤ (y - 1 / 2).ceil :=
      Rat.ceil_le_iff.mpr ((sub_le_sub_right h (1 / 2)).trans Rat.le_ceil)
    split
    · rename_i hy
      have hbelow : (x - 1 / 2).ceil ≤ 0 := Rat.ceil_le_iff.mpr (by push_cast; linarith)
      have habove : 0 ≤ (y + 1 / 2).floor := Rat.le_floor_iff.mpr (by push_cast; linarith)
      exact hbelow.trans habove
    · exact hceil

/-- A number of units within 64 bits. -/
def InUnits (n : Int) : Prop := Scalar.minInt64 ≤ n ∧ n ≤ Scalar.maxInt64

theorem toUnits_inRange (ratio v : Rat) : InUnits (toUnits ratio v) := by
  rw [toUnits_eq_clamp]
  exact ⟨le_max_left _ _, max_le (by decide) (min_le_left _ _)⟩

theorem toUnits_mono {ratio v w : Rat} (hratio : 0 ≤ ratio) (h : v ≤ w) : toUnits ratio v ≤ toUnits ratio w := by
  rw [toUnits_eq_clamp, toUnits_eq_clamp]
  exact max_le_max_left _ (min_le_min_left _ (roundRat_mono (mul_le_mul_of_nonneg_right h hratio)))

theorem toUnits_zero (ratio : Rat) : toUnits ratio 0 = 0 :=
  toUnits_eq (by rw [zero_mul, Int.cast_zero]) (by decide) (by decide)

/-- A number of units within 64 bits is written as it was read. -/
theorem toUnits_fromUnits {config : ImportConfig Rat} {n : Int} (hscale : 0 < config.scale) (h : InUnits n) :
    toUnits config.scale (fromUnits config n) = n :=
  toUnits_eq (div_mul_cancel₀ (n : Rat) hscale.ne') h.1 h.2

end Library

/-! ## Layers -/

namespace LayerTable

theorem before_trichotomous {a b : LayerSpec} (hab : ¬ a.before b) (hba : ¬ b.before a) : a = b := by
  obtain ⟨l, t⟩ := a
  obtain ⟨l', t'⟩ := b
  simp only [LayerSpec.before, Bool.or_eq_true, decide_eq_true_eq, Bool.and_eq_true, beq_iff_eq, not_or, not_and]
    at hab hba
  have hl : l = l' := by omega
  have ht : t = t' := by have := hab.2 hl; have := hba.2 hl.symm; omega
  rw [hl, ht]

theorem lookup_cons_eq {κ ω : Type} [BEq κ] [LawfulBEq κ] [DecidableEq κ] (k : κ) (v : ω) (r : List (κ × ω)) (k' : κ) :
    ((k, v) :: r).lookup k' = if k' = k then some v else r.lookup k' := by
  rw [List.lookup_cons]
  by_cases h : k' = k
  · rw [if_pos h, beq_iff_eq.mpr h]
  · rw [if_neg h, beq_eq_false_iff_ne.mpr h]

/-- After an insertion a look-up gives the new entry, and else what it gave before. -/
theorem lookup_insertSorted (s : LayerSpec) (name : String) (r : ReverseLayers) (s' : LayerSpec) :
    (insertSorted LayerSpec.before s name r).lookup s' = if s' = s then some name else r.lookup s' := by
  induction r with
  | nil => exact lookup_cons_eq s name [] s'
  | cons entry r ih =>
    obtain ⟨l, w⟩ := entry
    unfold insertSorted
    split
    · exact lookup_cons_eq s name _ s'
    · rename_i hsl
      split
      · rename_i hls
        rw [lookup_cons_eq, lookup_cons_eq, ih]
        by_cases hl : s' = l
        · have hne : l ≠ s := by
            rintro rfl
            exact hsl hls
          rw [if_pos hl, if_pos hl, if_neg (by rw [hl]; exact hne)]
        · rw [if_neg hl, if_neg hl]
      · rename_i hls
        rw [before_trichotomous hsl hls, lookup_cons_eq, lookup_cons_eq]
        by_cases h : s' = l
        · rw [if_pos h, if_pos h]
        · rw [if_neg h, if_neg h, if_neg h]

/-- No two names of the table have the same numbers. -/
def Injective (t : LayerTable) : Prop := ∀ a ∈ t.entries, ∀ b ∈ t.entries, a.2 = b.2 → a.1 = b.1

instance (t : LayerTable) : Decidable t.Injective := inferInstanceAs (Decidable (∀ a ∈ _, _))

/-- The reverse of a table gives the numbers of a name their name back. -/
theorem lookup_reverse {t : LayerTable} (ht : t.Injective) {name : String} {spec : LayerSpec}
    (h : t.get? name = some spec) : t.reverse.lookup spec = some name := by
  -- what a fold over entries finds under the numbers is the name, from the entry of the name on
  have hfold : ∀ (l : List (String × LayerSpec)) (r : ReverseLayers), (∀ a ∈ l, a.2 = spec → a.1 = name) →
      ((name, spec) ∈ l ∨ r.lookup spec = some name) →
      (l.foldl (fun r a => insertSorted LayerSpec.before a.2 a.1 r) r).lookup spec = some name := by
    intro l
    induction l with
    | nil => intro r _ h; simpa using h
    | cons a l ih =>
      intro r hall h
      obtain ⟨n, s⟩ := a
      rw [List.foldl_cons]
      refine ih _ (fun b hb => hall b (List.mem_cons_of_mem _ hb)) ?_
      rw [lookup_insertSorted]
      by_cases hs : spec = s
      · have hn : n = name := hall (n, s) List.mem_cons_self hs.symm
        exact .inr (by rw [if_pos hs, hn])
      · rw [if_neg hs]
        rcases h with h | h
        · rcases List.mem_cons.mp h with h | h
          · exact absurd (Prod.mk.inj h).2 hs
          · exact .inl h
        · exact .inr h
  have hmem : (name, spec) ∈ t.entries := by
    rw [get?, List.lookup_eq_some_iff] at h
    obtain ⟨l₁, l₂, hl, -⟩ := h
    rw [hl]
    simp
  exact hfold t.entries [] (fun a ha hs => ht a ha _ hmem hs) (.inl hmem)

end LayerTable

end RectLayout
