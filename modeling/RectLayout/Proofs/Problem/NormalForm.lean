import Mathlib.Data.List.Induction
import RectLayout.Problem.Basic
import RectLayout.Proofs.Traverse

/-!
# Normal forms, and points that are long enough

A row made from terms is in normal form: its unknowns are in strictly increasing order, no coefficient is zero, and
every unknown is one of the given terms (`Row.isNormal_ofTerms`). One term is added by a walk to its place, which keeps
the order (`Row.pairwise_addTerm`) and the terms of all other unknowns (`Row.mem_addTerm_of_ne`).

A change of one entry of a point leaves the others (`valueAt_modify`). A point has the value zero beyond its end
(`valueAt_of_size_le`), so a row, an area and a gradient have a value at points of any length. `Row.eval?`, `area?` and
`areaGradient?` are the same without this convention: they have no value if a place is asked for that the point does not
have. At a point that is long enough they have one, and it is the same (`Row.eval?_eq_some`, `area?_eq_some`,
`areaGradient?_eq_some`).
-/

namespace RectLayout

variable {α : Type} [Scalar α] {n : Nat} {x : Array α}

/-! ## Normal forms -/

namespace Row

/-- The unknowns of a row are in strictly increasing order and below `n`, and none has the coefficient zero. -/
structure IsNormal (n : Nat) (r : Row α) : Prop where
  increasing : r.terms.toList.Pairwise fun t u => t.1 < u.1
  nonzero : ∀ t ∈ r.terms, t.2 != 0
  inRange : ∀ t ∈ r.terms, t.1 < n

theorem unknown_of_mem_addTerm {i : Nat} {c : α} {l : List (Nat × α)} {t : Nat × α} (h : t ∈ addTerm i c l) :
    t.1 = i ∨ ∃ u ∈ l, u.1 = t.1 := by
  induction l with
  | nil =>
    obtain rfl := List.mem_singleton.mp h
    exact .inl rfl
  | cons u l ih =>
    obtain ⟨k, e⟩ := u
    unfold addTerm at h
    split at h
    · rcases List.mem_cons.mp h with rfl | h
      · exact .inl rfl
      · exact .inr ⟨t, h, rfl⟩
    · split at h
      · rcases List.mem_cons.mp h with rfl | h
        · exact .inr ⟨(k, e), List.mem_cons_self, rfl⟩
        · exact .inr ⟨t, List.mem_cons_of_mem _ h, rfl⟩
      · rcases List.mem_cons.mp h with rfl | h
        · exact .inr ⟨(k, e), List.mem_cons_self, rfl⟩
        · exact (ih h).imp_right fun ⟨u, hu, hut⟩ => ⟨u, List.mem_cons_of_mem _ hu, hut⟩

/-- A term that is added to terms in order goes to its place. -/
theorem pairwise_addTerm (i : Nat) (c : α) {l : List (Nat × α)} (h : l.Pairwise fun t u => t.1 < u.1) :
    (addTerm i c l).Pairwise fun t u => t.1 < u.1 := by
  induction l with
  | nil => exact List.pairwise_singleton _ _
  | cons u l ih =>
    obtain ⟨k, e⟩ := u
    obtain ⟨hk, hl⟩ := List.pairwise_cons.mp h
    unfold addTerm
    split
    · rename_i hik
      refine List.pairwise_cons.mpr ⟨fun t ht => ?_, h⟩
      rcases List.mem_cons.mp ht with rfl | ht
      · exact hik
      · exact Nat.lt_trans hik (hk t ht)
    · split
      · exact List.pairwise_cons.mpr ⟨hk, hl⟩
      · rename_i hlt hne
        refine List.pairwise_cons.mpr ⟨fun t ht => ?_, ih hl⟩
        rcases unknown_of_mem_addTerm ht with hti | ⟨u, hu, hut⟩
        · show k < t.1
          omega
        · rw [← hut]
          exact hk u hu

theorem merge_concat (l : List (Nat × α)) (t : Nat × α) : merge (l ++ [t]) = addTerm t.1 t.2 (merge l) := by
  rw [merge, List.foldl_append]
  rfl

theorem unknown_of_mem_merge {l : List (Nat × α)} {t : Nat × α} (h : t ∈ merge l) : ∃ u ∈ l, u.1 = t.1 := by
  induction l using List.reverseRecOn generalizing t with
  | nil => cases h
  | append_singleton l u ih =>
    rw [merge_concat] at h
    rcases unknown_of_mem_addTerm h with htu | ⟨v, hv, hvt⟩
    · exact ⟨u, List.mem_append_right l List.mem_cons_self, htu.symm⟩
    · obtain ⟨w, hw, hwv⟩ := ih hv
      exact ⟨w, List.mem_append_left [u] hw, hwv.trans hvt⟩

theorem pairwise_merge (l : List (Nat × α)) : (merge l).Pairwise fun t u => t.1 < u.1 := by
  induction l using List.reverseRecOn with
  | nil => exact .nil
  | append_singleton l t ih =>
    rw [merge_concat]
    exact pairwise_addTerm t.1 t.2 ih

/-- A row made from terms is in normal form. -/
theorem isNormal_ofTerms {terms : List (Nat × α)} {constant : α} {label : String} (h : ∀ t ∈ terms, t.1 < n) :
    (ofTerms terms constant label).IsNormal n where
  increasing := (pairwise_merge terms).filter _
  nonzero t ht := by
    rw [ofTerms, List.mem_toArray, List.mem_filter] at ht
    exact ht.2
  inRange t ht := by
    rw [ofTerms, List.mem_toArray, List.mem_filter] at ht
    obtain ⟨u, hu, hut⟩ := unknown_of_mem_merge ht.1
    rw [← hut]
    exact h u hu

theorem mem_addTerm_of_ne {i j : Nat} {c e : α} {l : List (Nat × α)} (h : (i, c) ∈ l) (hne : j ≠ i) :
    (i, c) ∈ addTerm j e l := by
  induction l with
  | nil => cases h
  | cons u l ih =>
    obtain ⟨k, b⟩ := u
    unfold addTerm
    split
    · exact List.mem_cons_of_mem _ h
    · split
      · rename_i hjk
        rcases List.mem_cons.mp h with heq | h
        · exact absurd (hjk.trans (Prod.mk.inj heq).1.symm) hne
        · exact List.mem_cons_of_mem _ h
      · rcases List.mem_cons.mp h with heq | h
        · rw [heq]
          exact List.mem_cons_self
        · exact List.mem_cons_of_mem _ (ih h)

/-- A row with an unknown that occurs in one term only has unknowns. -/
theorem not_isConstant_ofTerms {i : Nat} {c : α} {terms : List (Nat × α)} {constant : α} {label : String}
    (hc : c != 0) (h : ∀ t ∈ terms, t.1 ≠ i) : ¬ (ofTerms ((i, c) :: terms) constant label).isConstant := by
  have hmem : (i, c) ∈ merge ((i, c) :: terms) := by
    induction terms using List.reverseRecOn with
    | nil => exact List.mem_cons_self
    | append_singleton l t ih =>
      rw [List.forall_mem_append] at h
      rw [← List.cons_append, merge_concat]
      exact mem_addTerm_of_ne (ih h.1) (h.2 t List.mem_cons_self)
  rw [isConstant, Array.isEmpty_iff, ofTerms, List.toArray_eq_iff, List.filter_eq_nil_iff]
  exact fun hnone => hnone (i, c) hmem hc

/-! ## Points that are long enough -/

/-- The value of a row at a point that has a value for each of its unknowns. -/
def eval? (r : Row α) (x : Array α) : Option α :=
  (r.terms.toList.foldlM (fun s t => x[t.1]?.map fun v => s + t.2 * v) 0).map (· + r.constant)

end Row

theorem getElem?_eq_some_valueAt {i : Nat} (h : i < x.size) : x[i]? = some (valueAt x i) := by
  rw [valueAt, Array.getD_eq_getD_getElem?, Array.getElem?_eq_getElem h, Option.getD_some]

theorem valueAt_of_size_le {i : Nat} (h : x.size ≤ i) : valueAt x i = 0 := by
  rw [valueAt, Array.getD_eq_getD_getElem?, Array.getElem?_eq_none h, Option.getD_none]

/-- A changed entry is the only one that changes, if the point has it. -/
theorem valueAt_modify (x : Array α) (i : Nat) (f : α → α) (j : Nat) :
    valueAt (x.modify i f) j = if i = j ∧ j < x.size then f (valueAt x j) else valueAt x j := by
  by_cases hj : j < x.size
  · by_cases hij : i = j <;> simp [valueAt, Array.getD, Array.getElem_modify, hj, hij]
  · simp [valueAt, Array.getD, hj]

theorem Row.eval?_eq_some {r : Row α} (h : ∀ t ∈ r.terms, t.1 < x.size) : r.eval? x = some (r.eval x) := by
  have hfold := foldlM_eq_some (P := fun _ => True) (f := fun s t => x[t.1]?.map fun v => s + t.2 * v)
    (g := fun s t => s + t.2 * valueAt x t.1) (l := r.terms.toList) (s := 0) (fun s _ t ht => ?_) trivial
  · rw [eval?, hfold, Option.map_some, eval, ← Array.foldl_toList]
  · rw [getElem?_eq_some_valueAt (h t (Array.mem_def.mpr ht))]
    exact ⟨rfl, trivial⟩

/-- The box whose corners are the unknowns from `base` on, if the point has a value for them. -/
def boxAt? (x : Array α) (base : Nat) : Option (Box α) := do
  return ⟨← x[base]?, ← x[base + 1]?, ← x[base + 2]?, ← x[base + 3]?⟩

theorem boxAt?_eq_some {base : Nat} (h : base + 3 < x.size) : boxAt? x base = some (boxAt x base) := by
  rw [boxAt?, getElem?_eq_some_valueAt (by omega), getElem?_eq_some_valueAt (by omega),
    getElem?_eq_some_valueAt (by omega), getElem?_eq_some_valueAt h]
  rfl

/-- The total area of the boxes that start at the given unknowns, if the point has values for all of them. -/
def area? (boxes : List Nat) (x : Array α) : Option α :=
  (boxes.mapM (boxAt? x)).map fun bs => Scalar.sum (bs.map Box.area)

theorem area?_eq_some {boxes : List Nat} (h : ∀ b ∈ boxes, b + 3 < x.size) : area? boxes x = some (area boxes x) := by
  have hboxes : boxes.mapM (boxAt? x) = boxes.mapM fun b => pure (boxAt x b) :=
    mapM_congr fun b hb => boxAt?_eq_some (h b hb)
  rw [area?, hboxes, List.mapM_pure, Option.pure_def, Option.map_some, List.map_map, area]
  rfl

/-- An array with one entry changed, if it has that entry. -/
def modify? (g : Array α) (i : Nat) (f : α → α) : Option (Array α) := if i < g.size then some (g.modify i f) else none

/-- The partial derivatives of `area? boxes` at a point that has values for all the boxes. -/
def areaGradient? (boxes : List Nat) (x : Array α) : Option (Array α) :=
  boxes.foldlM (fun g b => do
    let box ← boxAt? x b
    let g ← modify? g b (· - box.height)
    let g ← modify? g (b + 2) (· + box.height)
    let g ← modify? g (b + 1) (· - box.width)
    modify? g (b + 3) (· + box.width)) (Array.replicate x.size 0)

theorem areaGradient?_eq_some {boxes : List Nat} (h : ∀ b ∈ boxes, b + 3 < x.size) :
    areaGradient? boxes x = some (areaGradient boxes x) := by
  refine foldlM_eq_some (P := fun g => g.size = x.size) (fun g hg b hb => ?_) Array.size_replicate
  have hb := h b hb
  have h0 : b < x.size := by omega
  have h1 : b + 1 < x.size := by omega
  have h2 : b + 2 < x.size := by omega
  refine ⟨?_, by simp only [Array.size_modify, hg]⟩
  simp only [boxAt?_eq_some hb, modify?, Array.size_modify, hg, h0, h1, h2, hb, if_true, Option.bind_eq_bind,
    Option.bind_some]

end RectLayout
