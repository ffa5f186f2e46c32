import Mathlib.Data.Finset.Card
import Mathlib.Data.List.Forall2
import Mathlib.Logic.Relation
import RectLayout.Design.Basic

/-!
# What walks over a graph find

A graph is given by the list of the nodes that each node leads to; `Reaches` is the reflexive transitive closure of its
edges. A walk with `seen` already done returns `seen` and more:

* every new node is reached from the start, in both orders (`preorder_sound`, `postorder_sound`), and in preorder no
  node comes twice (`nodup_preorder`);
* with fuel above the number of unseen nodes that lead anywhere, a walk in preorder is closed under the edges out of its
  new nodes (`preorder_closed`). So a walk that starts afresh finds exactly what the start reaches (`mem_preorder_iff`);
* where edges go down in rank, the same holds of a walk in postorder with fuel above the rank of its start
  (`mem_postorder_iff`), no node comes twice (`nodup_postorder`), and each comes after the nodes that it leads to
  (`ordered_postorder`). More fuel changes nothing (`postorder_fuel`);
* walks of two graphs whose nodes lead to the same nodes but for a renaming find the same (`forall₂_postorder`).
-/

open Relation

namespace RectLayout.Walk

variable {ν : Type}

/-- `w` is one of the nodes that `v` leads to. -/
def Edge (next : ν → List ν) (v w : ν) : Prop := w ∈ next v

/-- `w` is `v`, or is reached from `v` along edges. -/
abbrev Reaches (next : ν → List ν) : ν → ν → Prop := ReflTransGen (Edge next)

/-! ## What a fold of visits keeps -/

section Fold

variable {β : Type} {visit : List ν → β → List ν}

/-- A fold of visits that lose nothing loses nothing. -/
theorem subset_foldl (h : ∀ s v, s ⊆ visit s v) (vs : List β) (s : List ν) : s ⊆ vs.foldl visit s := by
  induction vs generalizing s with
  | nil => exact List.Subset.refl s
  | cons v vs ih => exact List.Subset.trans (h s v) (ih (visit s v))

theorem nodup_foldl (h : ∀ s v, s.Nodup → (visit s v).Nodup) (vs : List β) {s : List ν} (hs : s.Nodup) :
    (vs.foldl visit s).Nodup := by
  induction vs generalizing s with
  | nil => exact hs
  | cons v vs ih => exact ih (h s v hs)

/-- What a fold of visits finds, one of the visits finds. -/
theorem mem_foldl {P : β → ν → Prop} (h : ∀ s v, ∀ w ∈ visit s v, w ∈ s ∨ P v w) (vs : List β) {s : List ν} {w : ν}
    (hw : w ∈ vs.foldl visit s) : w ∈ s ∨ ∃ v ∈ vs, P v w := by
  induction vs generalizing s with
  | nil => exact .inl hw
  | cons v vs ih =>
    rcases ih hw with hw | ⟨u, hu, hp⟩
    · rcases h s v w hw with hw | hp
      · exact .inl hw
      · exact .inr ⟨v, List.mem_cons_self, hp⟩
    · exact .inr ⟨u, List.mem_cons_of_mem v hu, hp⟩

/-- A fold of visits that add what they visit and keep a property of lists. -/
theorem foldl_keeps {P : List ν → Prop} {visit : List ν → ν → List ν} (hsub : ∀ s v, s ⊆ visit s v) {vs : List ν}
    (h : ∀ v ∈ vs, ∀ s, P s → v ∈ visit s v ∧ P (visit s v)) {s : List ν} (hs : P s) :
    vs ⊆ vs.foldl visit s ∧ P (vs.foldl visit s) := by
  induction vs generalizing s with
  | nil => exact ⟨List.nil_subset _, hs⟩
  | cons v vs ih =>
    obtain ⟨hv, hkept⟩ := h v List.mem_cons_self s hs
    obtain ⟨hvs, hrest⟩ := ih (fun w hw => h w (List.mem_cons_of_mem v hw)) hkept
    exact ⟨List.cons_subset.mpr ⟨subset_foldl hsub vs _ hv, hvs⟩, hrest⟩

end Fold

variable [BEq ν] [LawfulBEq ν] {next : ν → List ν}

/-! ## One visit -/

theorem preorder_of_mem {fuel : Nat} {seen : List ν} {v : ν} (h : v ∈ seen) : preorder next fuel seen v = seen := by
  cases fuel with
  | zero => rfl
  | succ fuel => simp [preorder, h]

theorem preorder_of_not_mem {fuel : Nat} {seen : List ν} {v : ν} (h : v ∉ seen) :
    preorder next (fuel + 1) seen v = (next v).foldl (preorder next fuel) (seen ++ [v]) := by
  simp [preorder, h]

theorem postorder_of_mem {fuel : Nat} {seen : List ν} {v : ν} (h : v ∈ seen) : postorder next fuel seen v = seen := by
  cases fuel with
  | zero => rfl
  | succ fuel => simp [postorder, h]

theorem postorder_of_not_mem {fuel : Nat} {seen : List ν} {v : ν} (h : v ∉ seen) :
    postorder next (fuel + 1) seen v = (next v).foldl (postorder next fuel) seen ++ [v] := by
  simp [postorder, h]

/-! ## Walks in preorder -/

theorem subset_preorder (fuel : Nat) (seen : List ν) (v : ν) : seen ⊆ preorder next fuel seen v := by
  induction fuel generalizing seen v with
  | zero => exact List.Subset.refl seen
  | succ fuel ih =>
    by_cases h : v ∈ seen
    · rw [preorder_of_mem h]; exact List.Subset.refl seen
    · rw [preorder_of_not_mem h]
      exact List.Subset.trans (List.subset_append_left seen [v]) (subset_foldl ih (next v) _)

theorem mem_preorder_self (fuel : Nat) (seen : List ν) (v : ν) : v ∈ preorder next (fuel + 1) seen v := by
  by_cases h : v ∈ seen
  · rw [preorder_of_mem h]; exact h
  · rw [preorder_of_not_mem h]
    exact subset_foldl (subset_preorder fuel) (next v) _ (by simp)

/-- A walk finds nothing but what the start reaches. -/
theorem preorder_sound {fuel : Nat} {seen : List ν} {v w : ν} (hw : w ∈ preorder next fuel seen v) :
    w ∈ seen ∨ Reaches next v w := by
  induction fuel generalizing seen v w with
  | zero => exact .inl hw
  | succ fuel ih =>
    by_cases h : v ∈ seen
    · rw [preorder_of_mem h] at hw; exact .inl hw
    · rw [preorder_of_not_mem h] at hw
      rcases mem_foldl (P := Reaches next) (fun s u w hw => ih hw) (next v) hw with hw | ⟨u, hu, hp⟩
      · rcases List.mem_append.mp hw with hw | hw
        · exact .inl hw
        · rw [List.mem_singleton.mp hw]; exact .inr .refl
      · exact .inr (hp.head hu)

theorem nodup_preorder (fuel : Nat) {seen : List ν} (hs : seen.Nodup) (v : ν) : (preorder next fuel seen v).Nodup := by
  induction fuel generalizing seen v with
  | zero => exact hs
  | succ fuel ih =>
    by_cases h : v ∈ seen
    · rw [preorder_of_mem h]; exact hs
    · rw [preorder_of_not_mem h]
      refine nodup_foldl (fun s u hs => ih hs u) (next v) (List.nodup_append.mpr ⟨hs, by simp, ?_⟩)
      intro a ha b hb e
      rw [List.mem_singleton] at hb
      exact h (hb ▸ e ▸ ha)

open Classical in
/-- The nodes of `V` that are not seen yet. -/
noncomputable def unseen (V : Finset ν) (seen : List ν) : Finset ν := V.filter (· ∉ seen)

theorem card_unseen_le {V : Finset ν} {s t : List ν} (h : s ⊆ t) : (unseen V t).card ≤ (unseen V s).card := by
  classical
  refine Finset.card_le_card fun v hv => ?_
  simp only [unseen, Finset.mem_filter] at hv ⊢
  exact ⟨hv.1, fun hs => hv.2 (h hs)⟩

theorem card_unseen_lt {V : Finset ν} {s : List ν} {v : ν} (hv : v ∈ V) (hs : v ∉ s) :
    (unseen V (s ++ [v])).card < (unseen V s).card := by
  classical
  refine Finset.card_lt_card (Finset.ssubset_iff_of_subset ?_ |>.mpr ⟨v, ?_, ?_⟩)
  · intro w hw
    simp only [unseen, Finset.mem_filter, List.mem_append, not_or] at hw ⊢
    exact ⟨hw.1, hw.2.1⟩
  · simp [unseen, hv, hs]
  · simp [unseen]

/-- A fold of visits, each of which closes what it finds under the edges, closes what the fold finds. -/
theorem foldl_closed {visit : List ν → ν → List ν} {V : Finset ν} {fuel : Nat} (hsub : ∀ s v, s ⊆ visit s v)
    (hself : ∀ s v, v ∈ visit s v)
    (h : ∀ s v, (unseen V s).card ≤ fuel → ∀ w ∈ visit s v, w ∉ s → next w ⊆ visit s v) (vs : List ν) {s : List ν}
    (hs : (unseen V s).card ≤ fuel) :
    vs ⊆ vs.foldl visit s ∧ ∀ w ∈ vs.foldl visit s, w ∉ s → next w ⊆ vs.foldl visit s := by
  induction vs generalizing s with
  | nil => exact ⟨List.nil_subset _, fun w hw hn => absurd hw hn⟩
  | cons v vs ih =>
    have hrest := subset_foldl hsub vs (visit s v)
    obtain ⟨hall, hclosed⟩ := ih ((card_unseen_le (hsub s v)).trans hs)
    refine ⟨List.cons_subset.mpr ⟨hrest (hself s v), hall⟩, fun w hw hn => ?_⟩
    by_cases hv : w ∈ visit s v
    · exact List.Subset.trans (h s v hs w hv hn) hrest
    · exact hclosed w hw hv

/-- With fuel for all unseen nodes that lead anywhere, a walk contains what its new nodes lead to. -/
theorem preorder_closed {V : Finset ν} (hV : ∀ v, next v ≠ [] → v ∈ V) {fuel : Nat} {seen : List ν} {v : ν}
    (hf : (unseen V seen).card ≤ fuel) {w : ν} (hw : w ∈ preorder next (fuel + 1) seen v) (hn : w ∉ seen) :
    next w ⊆ preorder next (fuel + 1) seen v := by
  induction fuel generalizing seen v w with
  | zero =>
    have hempty : v ∉ seen → next v = [] := fun hv => by
      by_contra hne
      have := Finset.card_eq_zero.mp (Nat.le_zero.mp hf)
      have hmem : v ∈ unseen V seen := by simp [unseen, hV v hne, hv]
      rw [this] at hmem
      exact absurd hmem (Finset.notMem_empty v)
    by_cases h : v ∈ seen
    · rw [preorder_of_mem h] at hw; exact absurd hw hn
    · rw [preorder_of_not_mem h, hempty h] at hw ⊢
      rcases List.mem_append.mp hw with hw | hw
      · exact absurd hw hn
      · rw [List.mem_singleton.mp hw, hempty h]; exact List.nil_subset _
  | succ fuel ih =>
    by_cases h : v ∈ seen
    · rw [preorder_of_mem h] at hw; exact absurd hw hn
    · rw [preorder_of_not_mem h] at hw ⊢
      by_cases hne : next v = []
      · rw [hne] at hw ⊢
        rcases List.mem_append.mp hw with hw | hw
        · exact absurd hw hn
        · rw [List.mem_singleton.mp hw, hne]; exact List.nil_subset _
      · -- the start itself counts among the unseen nodes, so one unit of fuel is enough for it
        have hf' : (unseen V (seen ++ [v])).card ≤ fuel := by have := card_unseen_lt (hV v hne) h; omega
        obtain ⟨hall, hclosed⟩ := foldl_closed (subset_preorder (fuel + 1))
          (mem_preorder_self fuel) (fun s u hs w hw hn => ih hs hw hn) (next v) hf'
        by_cases hwv : w = v
        · rw [hwv]; exact hall
        · exact hclosed w hw (by simp [hn, hwv])

/-- A walk that starts afresh with fuel for all nodes finds exactly what the start reaches. -/
theorem mem_preorder_iff {V : Finset ν} (hV : ∀ v, next v ≠ [] → v ∈ V) {fuel : Nat} (hf : V.card ≤ fuel) {v w : ν} :
    w ∈ preorder next (fuel + 1) [] v ↔ Reaches next v w := by
  constructor
  · intro hw
    rcases preorder_sound hw with hw | hw
    · cases hw
    · exact hw
  · have hf' : (unseen V []).card ≤ fuel := by simpa [unseen] using hf
    intro hr
    induction hr with
    | refl => exact mem_preorder_self fuel [] v
    | tail _ he ih => exact preorder_closed hV hf' ih (by simp) he

/-! ## Walks in postorder -/

/-- A walk finds nothing but what the start reaches. -/
theorem postorder_sound {fuel : Nat} {seen : List ν} {v w : ν} (hw : w ∈ postorder next fuel seen v) :
    w ∈ seen ∨ Reaches next v w := by
  induction fuel generalizing seen v w with
  | zero => exact .inl hw
  | succ fuel ih =>
    by_cases h : v ∈ seen
    · rw [postorder_of_mem h] at hw; exact .inl hw
    · rw [postorder_of_not_mem h] at hw
      rcases List.mem_append.mp hw with hw | hw
      · rcases mem_foldl (P := Reaches next) (fun s u w hw => ih hw) (next v) hw with hw | ⟨u, hu, hp⟩
        · exact .inl hw
        · exact .inr (hp.head hu)
      · rw [List.mem_singleton.mp hw]; exact .inr .refl

theorem subset_postorder (fuel : Nat) (seen : List ν) (v : ν) : seen ⊆ postorder next fuel seen v := by
  induction fuel generalizing seen v with
  | zero => exact List.Subset.refl seen
  | succ fuel ih =>
    by_cases h : v ∈ seen
    · rw [postorder_of_mem h]; exact List.Subset.refl seen
    · rw [postorder_of_not_mem h]
      exact List.Subset.trans (subset_foldl ih (next v) seen) (List.subset_append_left _ [v])

theorem mem_postorder_self (fuel : Nat) (seen : List ν) (v : ν) : v ∈ postorder next (fuel + 1) seen v := by
  by_cases h : v ∈ seen
  · rw [postorder_of_mem h]; exact h
  · rw [postorder_of_not_mem h]
    exact List.mem_append_right _ List.mem_cons_self

/-- Every node of a list comes after the nodes that it leads to. -/
def Ordered (next : ν → List ν) (l : List ν) : Prop :=
  ∀ before v after, l = before ++ v :: after → next v ⊆ before

omit [BEq ν] [LawfulBEq ν] in
theorem ordered_nil : Ordered next [] := by
  intro before v after h
  simp at h

omit [BEq ν] [LawfulBEq ν] in
/-- A node may come last if all that it leads to is there. -/
theorem Ordered.concat {l : List ν} (hl : Ordered next l) {v : ν} (hv : next v ⊆ l) : Ordered next (l ++ [v]) := by
  intro before w after h
  rcases List.eq_nil_or_concat after with rfl | ⟨after, u, rfl⟩
  · obtain ⟨rfl, hw⟩ := List.append_inj' h rfl
    rw [← (List.cons.inj hw).1]
    exact hv
  · have h' : l ++ [v] = (before ++ w :: after) ++ [u] := by simpa using h
    exact hl before w after (List.append_inj' h' rfl).1

omit [BEq ν] [LawfulBEq ν] in
/-- An ordered list contains what its nodes lead to. -/
theorem Ordered.subset {l : List ν} (hl : Ordered next l) {v : ν} (hv : v ∈ l) : next v ⊆ l := by
  obtain ⟨before, after, rfl⟩ := List.append_of_mem hv
  exact List.Subset.trans (hl before v after rfl) (List.subset_append_left before _)

/-- Where every edge goes down in rank, a walk with fuel above the rank of its start adds the start and keeps the list
ordered. -/
theorem ordered_postorder {rank : ν → Nat} (hrank : ∀ v, ∀ w ∈ next v, rank w < rank v) {fuel : Nat} {seen : List ν}
    {v : ν} (hf : rank v < fuel) (hs : Ordered next seen) :
    v ∈ postorder next fuel seen v ∧ Ordered next (postorder next fuel seen v) := by
  induction fuel generalizing seen v with
  | zero => omega
  | succ fuel ih =>
    refine ⟨mem_postorder_self fuel seen v, ?_⟩
    by_cases h : v ∈ seen
    · rw [postorder_of_mem h]; exact hs
    · rw [postorder_of_not_mem h]
      have hvisit : ∀ w ∈ next v, ∀ s, Ordered next s →
          w ∈ postorder next fuel s w ∧ Ordered next (postorder next fuel s w) := by
        intro w hw s hs
        have hlt := hrank v w hw
        exact ih (by omega) hs
      obtain ⟨hall, hordered⟩ := foldl_keeps (subset_postorder fuel) hvisit hs
      exact hordered.concat hall

omit [BEq ν] [LawfulBEq ν] in
theorem rank_le_of_reaches {rank : ν → Nat} (hrank : ∀ v, ∀ w ∈ next v, rank w < rank v) {v w : ν}
    (h : Reaches next v w) : rank w ≤ rank v := by
  induction h with
  | refl => exact Nat.le_refl _
  | tail _ he ih =>
    have hlt := hrank _ _ he
    omega

/-- Where every edge goes down in rank, no node comes twice. -/
theorem nodup_postorder {rank : ν → Nat} (hrank : ∀ v, ∀ w ∈ next v, rank w < rank v) (fuel : Nat) {seen : List ν}
    (hs : seen.Nodup) (v : ν) : (postorder next fuel seen v).Nodup := by
  induction fuel generalizing seen v with
  | zero => exact hs
  | succ fuel ih =>
    by_cases h : v ∈ seen
    · rw [postorder_of_mem h]; exact hs
    · rw [postorder_of_not_mem h]
      refine List.nodup_append.mpr ⟨nodup_foldl (fun s u hs => ih hs u) (next v) hs, by simp, ?_⟩
      intro a ha b hb e
      rw [List.mem_singleton] at hb
      subst hb
      subst e
      rcases mem_foldl (P := Reaches next) (fun s u w hw => postorder_sound hw) (next a) ha with ha | ⟨u, hu, hr⟩
      · exact h ha
      · -- what `a` leads to has a lower rank, and so has all that is reached from there
        have hlt := hrank a u hu
        have hle := rank_le_of_reaches hrank hr
        omega

/-- Where every edge goes down in rank, a walk that starts afresh finds exactly what the start reaches. -/
theorem mem_postorder_iff {rank : ν → Nat} (hrank : ∀ v, ∀ w ∈ next v, rank w < rank v) {fuel : Nat} {v w : ν}
    (hf : rank v < fuel) : w ∈ postorder next fuel [] v ↔ Reaches next v w := by
  constructor
  · intro hw
    rcases postorder_sound hw with hw | hw
    · cases hw
    · exact hw
  · intro hr
    obtain ⟨hv, hordered⟩ := ordered_postorder hrank hf ordered_nil
    induction hr with
    | refl => exact hv
    | tail _ he ih => exact hordered.subset ih he

/-- Fuel above the rank of the start is enough for a walk, and more of it changes nothing. -/
theorem postorder_fuel {rank : ν → Nat} (hrank : ∀ v, ∀ w ∈ next v, rank w < rank v) {fuel fuel' : Nat}
    {seen : List ν} {v : ν} (hf : rank v < fuel) (hf' : rank v < fuel') :
    postorder next fuel seen v = postorder next fuel' seen v := by
  induction fuel generalizing fuel' seen v with
  | zero => omega
  | succ fuel ih =>
    obtain ⟨fuel', rfl⟩ := Nat.exists_eq_add_one_of_ne_zero (Nat.ne_of_gt (Nat.zero_lt_of_lt hf'))
    by_cases h : v ∈ seen
    · rw [postorder_of_mem h, postorder_of_mem h]
    · rw [postorder_of_not_mem h, postorder_of_not_mem h]
      congr 1
      refine List.foldl_ext _ _ _ fun s w hw => ?_
      have hlt := hrank v w hw
      exact ih (by omega) (by omega)

/-! ## Graphs that differ by a renaming -/

/-- Where the same nodes, but for a renaming, lead to the same nodes, walks find the same. -/
theorem forall₂_postorder {μ : Type} [BEq μ] [LawfulBEq μ] {next' : μ → List μ} {R : ν → μ → Prop}
    (hR : Relator.BiUnique R) (hnext : ∀ v w, R v w → List.Forall₂ R (next v) (next' w)) (fuel : Nat) {seen : List ν}
    {seen' : List μ} (hseen : List.Forall₂ R seen seen') {v : ν} {w : μ} (hvw : R v w) :
    List.Forall₂ R (postorder next fuel seen v) (postorder next' fuel seen' w) := by
  induction fuel generalizing seen seen' v w with
  | zero => exact hseen
  | succ fuel ih =>
    have hmem : v ∈ seen ↔ w ∈ seen' := List.rel_mem hR hvw hseen
    by_cases h : v ∈ seen
    · rw [postorder_of_mem h, postorder_of_mem (hmem.mp h)]
      exact hseen
    · rw [postorder_of_not_mem h, postorder_of_not_mem (mt hmem.mpr h)]
      have hfold := List.rel_foldl (P := List.Forall₂ R) (R := R) (fun _ _ hs _ _ hu => ih hs hu) hseen (hnext v w hvw)
      exact List.rel_append hfold (.cons hvw .nil)

end RectLayout.Walk
