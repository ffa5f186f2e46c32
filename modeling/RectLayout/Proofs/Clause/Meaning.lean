import Mathlib.Algebra.BigOperators.Group.List.Basic
import Mathlib.Algebra.Order.Field.Rat
import Mathlib.Tactic.Linarith
import Mathlib.Tactic.Ring
import RectLayout.Clause.Parser
import RectLayout.Proofs.Traverse

/-!
# The meaning of clauses

A clause compares the values of its two sides, which are sums over coordinates of the subject's and the object's boxes
(`Clause.HoldsWithin`). A side has a value if all boxes that it speaks of are given (`LinearExpr.exists_value`); the
difference of two sides has the difference of their values (`LinearExpr.value_minus`), which is what a relation demands
(`Clause.holdsWithin_relation_iff`). A clause that was read for a constraint without an object does not speak of one
(`Clause.hasObject_of_parseAll`).
-/

namespace RectLayout

/-! ## Values -/

/-- The value of a term, if the box that it speaks of is given. -/
def Term.value? (boxes : Role → Option (Box Rat)) (t : Term Rat) : Option Rat :=
  match t.coord with
  | none => some t.coefficient
  | some c => (boxes c.role).map fun b => t.coefficient * b.get c.axis c.corner

/-- The value of a sum, if all boxes that it speaks of are given. -/
def LinearExpr.value? (boxes : Role → Option (Box Rat)) (e : LinearExpr Rat) : Option Rat :=
  (e.terms.mapM (Term.value? boxes)).map List.sum

/-- A comparison holds up to a tolerance. Strict comparisons allow equality. -/
def Comparison.HoldsWithin (t : Rat) : Comparison → Rat → Rat → Prop
  | .less, l, r | .lessOrEqual, l, r => l ≤ r + t
  | .greater, l, r | .greaterOrEqual, l, r => r ≤ l + t
  | .equal, l, r => l ≤ r + t ∧ r ≤ l + t

/-- Both sides of a clause have values, and the comparison holds between them up to a tolerance. -/
def Clause.HoldsWithin (t : Rat) (boxes : Role → Option (Box Rat)) (c : Clause Rat) : Prop :=
  ∃ l r, c.lhs.value? boxes = some l ∧ c.rhs.value? boxes = some r ∧ c.comparison.HoldsWithin t l r

instance (t : Rat) (c : Comparison) (l r : Rat) : Decidable (c.HoldsWithin t l r) :=
  match c with
  | .less | .lessOrEqual => inferInstanceAs (Decidable (l ≤ r + t))
  | .greater | .greaterOrEqual => inferInstanceAs (Decidable (r ≤ l + t))
  | .equal => inferInstanceAs (Decidable (l ≤ r + t ∧ r ≤ l + t))

instance (t : Rat) (boxes : Role → Option (Box Rat)) (c : Clause Rat) : Decidable (c.HoldsWithin t boxes) :=
  match hl : c.lhs.value? boxes, hr : c.rhs.value? boxes with
  | some l, some r => decidable_of_iff (c.comparison.HoldsWithin t l r) (by simp [Clause.HoldsWithin, hl, hr])
  | none, _ => isFalse (by simp [Clause.HoldsWithin, hl])
  | _, none => isFalse (by simp [Clause.HoldsWithin, hr])

/-- A coordinate occurs in a clause. -/
def Clause.Names {α : Type} (c : Clause α) (coord : Coord) : Prop :=
  ∃ u, (u ∈ c.lhs.terms ∨ u ∈ c.rhs.terms) ∧ u.coord = some coord

variable {boxes : Role → Option (Box Rat)} {t : Rat}

namespace LinearExpr

theorem value?_cons_eq_some {u : Term Rat} {us : List (Term Rat)} {v : Rat} : value? boxes ⟨u :: us⟩ = some v ↔
    ∃ a s, u.value? boxes = some a ∧ value? boxes ⟨us⟩ = some s ∧ a + s = v := by
  simp only [value?, List.mapM_cons, Option.map_eq_some_iff, Option.bind_eq_bind, Option.bind_eq_some_iff,
    Option.pure_def, Option.some.injEq]
  constructor
  · rintro ⟨_, ⟨a, ha, l, hl, rfl⟩, rfl⟩
    exact ⟨a, l.sum, ha, ⟨l, hl, rfl⟩, List.sum_cons.symm⟩
  · rintro ⟨a, _, ha, ⟨l, hl, rfl⟩, rfl⟩
    exact ⟨a :: l, ⟨a, ha, l, hl, rfl⟩, List.sum_cons⟩

/-- A sum has a value if every box that it speaks of is given. -/
theorem exists_value {us : List (Term Rat)} (h : ∀ u ∈ us, ∀ c ∈ u.coord, (boxes c.role).isSome) :
    ∃ v, value? boxes ⟨us⟩ = some v := by
  induction us with
  | nil => exact ⟨0, rfl⟩
  | cons u us ih =>
    obtain ⟨s, hs⟩ := ih fun w hw => h w (List.mem_cons_of_mem u hw)
    have hu : ∃ a, u.value? boxes = some a := by
      unfold Term.value?
      split
      · exact ⟨_, rfl⟩
      · rename_i c hc
        obtain ⟨b, hb⟩ := Option.isSome_iff_exists.mp (h u List.mem_cons_self c hc)
        exact ⟨_, by rw [hb]; rfl⟩
    obtain ⟨a, ha⟩ := hu
    exact ⟨a + s, value?_cons_eq_some.mpr ⟨a, s, ha, hs, rfl⟩⟩

/-- The value of a sum depends on the coordinates in it only. -/
theorem value?_congr {boxes' : Role → Option (Box Rat)} {us : List (Term Rat)}
    (h : ∀ u ∈ us, ∀ c ∈ u.coord, (boxes c.role).map (Box.get · c.axis c.corner) =
      (boxes' c.role).map (Box.get · c.axis c.corner)) : value? boxes ⟨us⟩ = value? boxes' ⟨us⟩ := by
  have hterm : ∀ u ∈ us, u.value? boxes = u.value? boxes' := by
    intro u hu
    unfold Term.value?
    split
    · rfl
    · rename_i c hc
      have hc := congrArg (Option.map (u.coefficient * ·)) (h u hu c hc)
      simpa [Function.comp_def] using hc
  rw [value?, value?]
  congr 1
  induction us with
  | nil => rfl
  | cons u us ih =>
    rw [List.mapM_cons, List.mapM_cons, hterm u List.mem_cons_self,
      ih (fun w hw => h w (List.mem_cons_of_mem u hw)) fun w hw => hterm w (List.mem_cons_of_mem u hw)]

theorem value_append {us ws : List (Term Rat)} {v w : Rat} (hv : value? boxes ⟨us⟩ = some v)
    (hw : value? boxes ⟨ws⟩ = some w) : value? boxes ⟨us ++ ws⟩ = some (v + w) := by
  induction us generalizing v with
  | nil =>
    have hv : v = 0 := (Option.some.inj hv).symm
    rw [hv, zero_add]
    exact hw
  | cons u us ih =>
    obtain ⟨a, s, ha, hs, rfl⟩ := value?_cons_eq_some.mp hv
    exact value?_cons_eq_some.mpr ⟨a, s + w, ha, ih hs, by ring⟩

theorem value_neg {us : List (Term Rat)} {v : Rat} (hv : value? boxes ⟨us⟩ = some v) :
    value? boxes ⟨us.map fun u => { u with coefficient := -u.coefficient }⟩ = some (-v) := by
  induction us generalizing v with
  | nil =>
    have hv : v = 0 := (Option.some.inj hv).symm
    rw [hv, neg_zero]
    rfl
  | cons u us ih =>
    obtain ⟨a, s, ha, hs, rfl⟩ := value?_cons_eq_some.mp hv
    refine value?_cons_eq_some.mpr ⟨-a, -s, ?_, ih hs, by ring⟩
    unfold Term.value? at ha ⊢
    split at ha
    · rename_i hc
      simp only [hc]
      rw [Option.some.inj ha]
    · rename_i c hc
      obtain ⟨b, hb, rfl⟩ := Option.map_eq_some_iff.mp ha
      simp only [hc, hb, Option.map_some]
      ring_nf

/-- The difference of two sums has the difference of their values. -/
theorem value_minus {a b : LinearExpr Rat} {v w : Rat} (hv : a.value? boxes = some v) (hw : b.value? boxes = some w) :
    (a.minus b).value? boxes = some (v - w) := by
  rw [sub_eq_add_neg]
  exact value_append hv (value_neg hw)

end LinearExpr

/-- Whether a clause holds depends on the coordinates in it only. -/
theorem Clause.HoldsWithin.congr {boxes' : Role → Option (Box Rat)} {k : Clause Rat} (h : k.HoldsWithin t boxes)
    (hsame : ∀ c, k.Names c → (boxes c.role).map (Box.get · c.axis c.corner) =
      (boxes' c.role).map (Box.get · c.axis c.corner)) : k.HoldsWithin t boxes' := by
  obtain ⟨l, r, hl, hr, hlr⟩ := h
  refine ⟨l, r, ?_, ?_, hlr⟩
  · rw [← hl]
    exact (LinearExpr.value?_congr fun u hu c hc => hsame c ⟨u, .inl hu, hc⟩).symm
  · rw [← hr]
    exact (LinearExpr.value?_congr fun u hu c hc => hsame c ⟨u, .inr hu, hc⟩).symm

/-- A clause that holds of some boxes and fails of others names a coordinate in which they differ. -/
theorem Clause.HoldsWithin.exists_ne {boxes' : Role → Option (Box Rat)} {k : Clause Rat} (h : k.HoldsWithin t boxes)
    (hfails : ¬ k.HoldsWithin t boxes') : ∃ c, k.Names c ∧
      (boxes c.role).map (Box.get · c.axis c.corner) ≠ (boxes' c.role).map (Box.get · c.axis c.corner) := by
  by_contra hno
  apply hfails
  apply h.congr
  intro c hc
  by_contra hne
  exact hno ⟨c, hc, hne⟩

/-! ## Relations -/

/-- A relation holds up to a tolerance. -/
def Relation.HoldsWithin (t : Rat) (boxes : Role → Option (Box Rat)) : Relation Rat → Prop
  | .equal e => ∃ v, e.value? boxes = some v ∧ -t ≤ v ∧ v ≤ t
  | .nonNegative e => ∃ v, e.value? boxes = some v ∧ -t ≤ v

/-- The sum of which a relation speaks. -/
def Relation.expr {α : Type} : Relation α → LinearExpr α
  | .equal e | .nonNegative e => e

theorem Clause.exists_value_relation {c : Clause Rat} {l r : Rat} (hl : c.lhs.value? boxes = some l)
    (hr : c.rhs.value? boxes = some r) : ∃ v, c.relation.expr.value? boxes = some v := by
  unfold relation
  split
  · exact ⟨_, LinearExpr.value_minus hl hr⟩
  · exact ⟨_, LinearExpr.value_minus hr hl⟩
  · exact ⟨_, LinearExpr.value_minus hr hl⟩
  · exact ⟨_, LinearExpr.value_minus hl hr⟩
  · exact ⟨_, LinearExpr.value_minus hl hr⟩

/-- A clause whose sides have values holds exactly if the relation that it is turned into does. -/
theorem Clause.holdsWithin_relation_iff {c : Clause Rat} {l r : Rat} (hl : c.lhs.value? boxes = some l)
    (hr : c.rhs.value? boxes = some r) : c.relation.HoldsWithin t boxes ↔ c.HoldsWithin t boxes := by
  have hlr := LinearExpr.value_minus hl hr
  have hrl := LinearExpr.value_minus hr hl
  have hc : c.HoldsWithin t boxes ↔ c.comparison.HoldsWithin t l r := by simp [HoldsWithin, hl, hr]
  rw [hc]
  unfold relation
  cases c.comparison with
  | equal =>
    simp only [Relation.HoldsWithin, hlr, Option.some.injEq, exists_eq_left', Comparison.HoldsWithin]
    constructor <;> rintro ⟨h₁, h₂⟩ <;> constructor <;> linarith
  | less =>
    simp only [Relation.HoldsWithin, hrl, Option.some.injEq, exists_eq_left', Comparison.HoldsWithin]
    constructor <;> intro h <;> linarith
  | lessOrEqual =>
    simp only [Relation.HoldsWithin, hrl, Option.some.injEq, exists_eq_left', Comparison.HoldsWithin]
    constructor <;> intro h <;> linarith
  | greater =>
    simp only [Relation.HoldsWithin, hlr, Option.some.injEq, exists_eq_left', Comparison.HoldsWithin]
    constructor <;> intro h <;> linarith
  | greaterOrEqual =>
    simp only [Relation.HoldsWithin, hlr, Option.some.injEq, exists_eq_left', Comparison.HoldsWithin]
    constructor <;> intro h <;> linarith

/-! ## What a clause can speak of -/

variable {α : Type} [Scalar α]

/-- A side that was read for a constraint without an object does not speak of one. -/
theorem hasObject_of_parseSide {side : List Char} {offset : Nat} {clause : String} {hasObject : Bool}
    {e : LinearExpr α} (h : Clause.parseSide side offset clause hasObject = .ok e) {u : Term α} (hu : u ∈ e.terms)
    {c : Coord} (hc : u.coord = some c) (hrole : c.role = .object) : hasObject := by
  obtain ⟨tokens, -, h⟩ := bind_eq_ok_iff.mp h
  obtain ⟨raw, -, h⟩ := bind_eq_ok_iff.mp h
  obtain ⟨terms, hterms, h⟩ := bind_eq_ok_iff.mp h
  cases h
  obtain ⟨rawTerm, -, hbind⟩ := exists_of_mem_mapM hterms hu
  unfold RawTerm.bind at hbind
  split at hbind
  · cases hbind
    cases hc
  · split at hbind
    · cases hbind
    · split at hbind
      · cases hbind
      · rename_i coord _ hobject
        cases hbind
        cases hc
        simpa [hrole] using hobject

/-- A clause that was read for a constraint without an object does not speak of one. -/
theorem Clause.hasObject_of_parseAll {text : String} {hasObject : Bool} {clauses : List (Clause α)}
    (h : Clause.parseAll text hasObject = .ok clauses) {k : Clause α} (hk : k ∈ clauses) {c : Coord} (hc : k.Names c)
    (hrole : c.role = .object) : hasObject := by
  obtain ⟨u, hu, hc⟩ := hc
  obtain ⟨part, -, hparse⟩ := exists_of_mem_mapM h hk
  unfold parse at hparse
  split at hparse
  · cases hparse
  · obtain ⟨lhs, hlhs, hparse⟩ := bind_eq_ok_iff.mp hparse
    obtain ⟨rhs, hrhs, hparse⟩ := bind_eq_ok_iff.mp hparse
    cases hparse
    exact hu.elim (fun hu => hasObject_of_parseSide hlhs hu hc hrole) fun hu => hasObject_of_parseSide hrhs hu hc hrole

end RectLayout
