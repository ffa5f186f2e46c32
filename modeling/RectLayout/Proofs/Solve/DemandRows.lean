import RectLayout.Proofs.LinearProgram.Demand
import RectLayout.Proofs.Solve.Feasibility

/-!
# The tableau of a problem's rows

The tableau of a problem takes the rows one after another as demands. As long as it takes them it shows a dictionary that
represents them, by induction on the rows (`takesRows_foldlM`). So in exact numbers its point satisfies all rows, or the
row to blame is the first that cannot be satisfied with those before it, unless the descent for that row makes all the
pivots that it may make (`SpentOnRow`, `demandRows_cases`).
-/

namespace RectLayout

open LinearProgram

/-- The tableau with one more row as a demand. -/
def takeRow {α : Type} [Scalar α] (t : Tableau α) (r : RowKind × Row α) : Except PassError (Tableau α) :=
  (t.demand (r.1 == .inequality) r.2.terms.toList r.2.constant).mapError (.ofRefusal r.2.label)

variable {n : Nat} {p : Problem Rat} {r : RowKind × Row Rat} {rows done : List (RowKind × Row Rat)} {t : Tableau Rat}
  {d : Dictionary} {result : Except PassError (Tableau Rat)}

theorem demandRows_eq (p : Problem Rat) :
    demandRows p = Tableau.withoutMarks <$> p.rows.foldlM takeRow (.empty p.numVars) := rfl

/-- The descent for a row, which the rows before it have left as the first, makes all the pivots that it may make. -/
def SpentOnRow (n : Nat) (rows : List (RowKind × Row Rat)) (r : RowKind × Row Rat) : Prop :=
  ∃ before after t, rows = before ++ r :: after ∧ before.foldlM takeRow (.empty n) = .ok t ∧
    t.SpentOn (r.1 == .inequality) r.2.terms.toList r.2.constant

theorem value_withoutMarks (t : Tableau Rat) (i : Nat) : t.withoutMarks.value i = t.value i := by
  let strip (f : Combination Rat) : Combination Rat := { f with cells := f.cells.filter fun c => c.1.role ≠ .mark }
  have hrow : t.withoutMarks.row? ⟨.unknown, i⟩ = (t.row? ⟨.unknown, i⟩).map strip :=
    lookup_map (fun v => v) (fun _ _ h => h) strip t.rows ⟨.unknown, i⟩
  rw [Tableau.value, hrow, Option.map_map]
  rfl

/-- A row is taken by a tableau that shows the rows before it, or blamed. -/
inductive TakesRows (n : Nat) (t : Tableau Rat) (done rows : List (RowKind × Row Rat)) :
    Except PassError (Tableau Rat) → Prop
  | taken {t' : Tableau Rat} {d : Dictionary} (hshows : Shows t' d) (h : d.Represents n ((done ++ rows).map demandOf)) :
      TakesRows n t done rows (.ok t')
  | refused {before after : List (RowKind × Row Rat)} {r : RowKind × Row Rat} {t' : Tableau Rat} {d : Dictionary}
      (hsplit : rows = before ++ r :: after) (hrun : before.foldlM takeRow t = .ok t')
      (h : d.Represents n ((done ++ before).map demandOf))
      (hcause : ¬ Meetable ((done ++ before ++ [r]).map demandOf) ∨
        t'.SpentOn (r.1 == .inequality) r.2.terms.toList r.2.constant) :
      TakesRows n t done rows (.error (.unsatisfiable r.2.label))

theorem TakesRows.cons {t' : Tableau Rat} (htake : takeRow t r = .ok t')
    (h : TakesRows n t' (done ++ [r]) rows result) : TakesRows n t done (r :: rows) result := by
  cases h with
  | taken hshows h => exact .taken hshows (by rwa [List.append_cons])
  | refused hsplit hrun h hcause =>
    rename_i before after r' t'' d
    have hrun' : (r :: before).foldlM takeRow t = .ok t'' := by
      rw [List.foldlM_cons, htake]
      exact hrun
    rw [← List.append_cons] at h hcause
    exact .refused (by rw [hsplit, List.cons_append]) hrun' h hcause

theorem TakesRows.head (h : d.Represents n (done.map demandOf))
    (hcause : ¬ Meetable ((done ++ [r]).map demandOf) ∨ t.SpentOn (r.1 == .inequality) r.2.terms.toList r.2.constant) :
    TakesRows n t done (r :: rows) (.error (.unsatisfiable r.2.label)) := by
  have hrun : ([] : List (RowKind × Row Rat)).foldlM takeRow t = .ok t := rfl
  rw [← List.append_nil done] at h hcause
  exact .refused rfl hrun h hcause

theorem takesRows_foldlM (hshows : Shows t d) (h : d.Represents n (done.map demandOf))
    (hrows : ∀ r ∈ rows, r.2.IsNormal n) : TakesRows n t done rows (rows.foldlM takeRow t) := by
  induction rows generalizing t d done with
  | nil => exact .taken hshows (by rwa [List.append_nil])
  | cons r rows ih =>
    rw [List.forall_mem_cons] at hrows
    have hanswers : Answers n (done.map demandOf) t (demandOf r)
        (t.demand (r.1 == .inequality) r.2.terms.toList r.2.constant) := h.answers (isNormal_demandOf hrows.1) hshows
    have hmap : done.map demandOf ++ [demandOf r] = (done ++ [r]).map demandOf := by simp
    cases hdemand : t.demand (r.1 == .inequality) r.2.terms.toList r.2.constant with
    | ok t' =>
      have htake : takeRow t r = .ok t' := by rw [takeRow, hdemand]; rfl
      rw [hdemand] at hanswers
      cases hanswers with
      | taken hshows' h' =>
        rw [hmap] at h'
        rw [List.foldlM_cons, htake]
        exact (ih hshows' h' hrows.2).cons htake
    | error refusal =>
      have htake : takeRow t r = .error (.ofRefusal r.2.label refusal) := by rw [takeRow, hdemand]; rfl
      rw [hdemand] at hanswers
      rw [List.foldlM_cons, htake]
      cases hanswers with
      | contradicted hnot =>
        rw [hmap] at hnot
        exact .head h (.inl hnot)
      | spent hspent => exact .head h (.inr hspent)

/-! ## The answer for a problem -/

/-- The tableau of the rows has a point that satisfies them. Otherwise a row is blamed, unless the descent for a row makes
all the pivots that it may make: then the rows before that one can be satisfied. -/
theorem demandRows_cases (hrows : ∀ r ∈ p.rows, r.2.IsNormal p.numVars) :
    (∃ t, demandRows p = .ok t ∧ ∀ r ∈ p.rows, RowHolds 0 (pointOf p t) r) ∨
    ∃ r, demandRows p = .error (.unsatisfiable r.2.label) ∧
      (IsBlamedRow p.numVars p.rows r ∨ SpentOnRow p.numVars p.rows r) := by
  have htakes : TakesRows p.numVars (.empty p.numVars) [] p.rows (p.rows.foldlM takeRow (.empty p.numVars)) :=
    takesRows_foldlM (shows_empty p.numVars) (represents_empty p.numVars) hrows
  rw [demandRows_eq]
  generalize p.rows.foldlM takeRow (.empty p.numVars) = result at htakes ⊢
  cases htakes with
  | taken hshows h =>
    rename_i t d
    refine .inl ⟨t.withoutMarks, rfl, fun r hr => (holds_demandOf_range_iff (hrows r hr)).mp ?_⟩
    have hvalue : ∀ i < p.numVars, t.withoutMarks.value i = d.value i := fun i hi => by
      rw [value_withoutMarks, hshows.value_eq (h.unknown i hi)]
    have hholds := h.holds_value _ (List.mem_map_of_mem hr)
    rw [Demand.holds_iff] at hholds ⊢
    rwa [(isNormal_demandOf (hrows r hr)).eval_congr hvalue]
  | refused hsplit hrun h hcause =>
    rename_i before after r t d
    rw [List.nil_append] at h hcause
    have hbefore : ∀ r ∈ before, r.2.IsNormal p.numVars := fun r hr => hrows r (hsplit ▸ List.mem_append_left _ hr)
    have hsolvable := (meetable_map_demandOf_iff hbefore).mp ⟨d.value, h.holds_value⟩
    refine .inr ⟨r, rfl, hcause.imp (fun hnot => ?_) fun hspent => ⟨before, after, t, hsplit, hrun, hspent⟩⟩
    refine ⟨before, after, hsplit, hsolvable, fun hrow => hnot ((meetable_map_demandOf_iff ?_).mpr hrow)⟩
    refine List.forall_mem_append.mpr ⟨hbefore, List.forall_mem_singleton.mpr (hrows r ?_)⟩
    rw [hsplit]
    simp

end RectLayout
