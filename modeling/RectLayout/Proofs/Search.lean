import RectLayout.Proofs.Design.Active

/-!
# Searches with a stack

A search for a target keeps a stack of nodes to look at and the nodes that it has looked at (`Walk.search`). It ends,
since no node that leads anywhere is looked at twice, and decides whether its start reaches the target on any graph, with
sharing and circles (`search_iff`). In a design it tells whether a cell draws another (`Design.reaches`) without listing
all that the cell draws, and finds the same (`contains_reachable_iff`).
-/

open Relation

namespace RectLayout.Walk

variable {ν : Type} [DecidableEq ν] {next : ν → List ν}

/-- Whether a node of the stack leads to `target`. The nodes `seen` have been looked at: what they lead to was pushed.
Only nodes of `V` lead anywhere. -/
def search (next : ν → List ν) {V : Finset ν} (hV : ∀ v, next v ≠ [] → v ∈ V) (target : ν) (seen : List ν) :
    List ν → Bool
  | [] => false
  | v :: stack =>
    if v = target then true
    else if v ∈ seen then search next hV target seen stack
    else search next hV target (seen ++ [v]) ((next v).reverse ++ stack)
termination_by stack => ((unseen V seen).card, stack.length)
decreasing_by
  · exact Prod.Lex.right _ (Nat.lt_succ_self _)
  · rename_i hseen
    by_cases hv : v ∈ V
    · exact Prod.Lex.left _ _ (card_unseen_lt hv hseen)
    · -- a node outside of `V` leads nowhere
      have hnext : next v = [] := by
        by_contra hne
        exact hv (hV v hne)
      rw [Prod.lex_def]
      rcases Nat.lt_or_eq_of_le (card_unseen_le (List.subset_append_left seen [v]) : (unseen V (seen ++ [v])).card ≤ _)
        with hlt | heq
      · exact .inl hlt
      · exact .inr ⟨heq, by simp [hnext]⟩

theorem search_sound {V : Finset ν} {hV : ∀ v, next v ≠ [] → v ∈ V} {target : ν} {seen stack : List ν}
    (h : search next hV target seen stack = true) : ∃ v ∈ stack, Reaches next v target := by
  induction seen, stack using search.induct next hV target with
  | case1 seen => simp [search] at h
  | case2 seen stack => exact ⟨target, List.mem_cons_self, .refl⟩
  | case3 seen v stack htarget hseen ih =>
    rw [search, if_neg htarget, if_pos hseen] at h
    obtain ⟨u, hu, hr⟩ := ih h
    exact ⟨u, List.mem_cons_of_mem v hu, hr⟩
  | case4 seen v stack htarget hseen ih =>
    rw [search, if_neg htarget, if_neg hseen] at h
    obtain ⟨u, hu, hr⟩ := ih h
    rcases List.mem_append.mp hu with hu | hu
    · exact ⟨v, List.mem_cons_self, hr.head (List.mem_reverse.mp hu)⟩
    · exact ⟨u, List.mem_cons_of_mem v hu, hr⟩

/-- A search finds what a node reaches that was looked at or waits on the stack, as long as what was looked at is not
the target and leads to such nodes only. -/
theorem search_complete {V : Finset ν} {hV : ∀ v, next v ≠ [] → v ∈ V} {target : ν} {seen stack : List ν}
    (htarget : target ∉ seen) (hseen : ∀ w ∈ seen, ∀ u ∈ next w, u ∈ seen ∨ u ∈ stack) {v : ν}
    (hv : v ∈ seen ∨ v ∈ stack) (hr : Reaches next v target) : search next hV target seen stack = true := by
  induction seen, stack using search.induct next hV target generalizing v with
  | case1 seen =>
    -- all that `v` reaches was looked at
    have hall : ∀ w, Reaches next v w → w ∈ seen := by
      intro w hw
      induction hw with
      | refl => simpa using hv
      | tail _ he ih => simpa using hseen _ ih _ he
    exact absurd (hall target hr) htarget
  | case2 seen stack => rw [search, if_pos rfl]
  | case3 seen u stack hu hold ih =>
    rw [search, if_neg hu, if_pos hold]
    have hpop : ∀ w, w ∈ seen ∨ w ∈ u :: stack → w ∈ seen ∨ w ∈ stack := by
      rintro w (hw | hw)
      · exact .inl hw
      · rcases List.mem_cons.mp hw with rfl | hw
        · exact .inl hold
        · exact .inr hw
    exact ih htarget (fun w hw x hx => hpop x (hseen w hw x hx)) (hpop v hv) hr
  | case4 seen u stack hu hnew ih =>
    rw [search, if_neg hu, if_neg hnew]
    have hpush : ∀ w, w ∈ seen ∨ w ∈ u :: stack → w ∈ seen ++ [u] ∨ w ∈ (next u).reverse ++ stack := by
      intro w hw
      simp only [List.mem_cons, List.mem_append] at hw ⊢
      tauto
    refine ih ?_ ?_ (hpush v hv) hr
    · simpa [htarget, eq_comm] using hu
    · intro w hw x hx
      rcases List.mem_append.mp hw with hw | hw
      · exact hpush x (hseen w hw x hx)
      · rw [List.mem_singleton.mp hw] at hx
        exact .inr (List.mem_append_left _ (List.mem_reverse.mpr hx))

/-- A search that starts afresh decides whether its start reaches the target. -/
theorem search_iff {V : Finset ν} {hV : ∀ v, next v ≠ [] → v ∈ V} {target v : ν} :
    search next hV target [] [v] = true ↔ Reaches next v target := by
  constructor
  · intro h
    obtain ⟨u, hu, hr⟩ := search_sound h
    rwa [← List.mem_singleton.mp hu]
  · exact search_complete (List.not_mem_nil) (fun _ hw => absurd hw List.not_mem_nil) (.inr List.mem_cons_self)

end RectLayout.Walk

namespace RectLayout.Design

open Walk

variable {α : Type} {d : Design α} {c t : CellId}

/-- Whether a cell draws another one, by a search from the first. -/
def reaches (d : Design α) (t c : CellId) : Bool :=
  search d.templates (fun _ => mem_cellSet_of_templates) c [] [t]

theorem reaches_iff : d.reaches t c = true ↔ Reaches d.templates t c := search_iff

theorem contains_reachable_iff : (d.reachable t).contains c = true ↔ t = c ∨ d.reaches t c = true := by
  rw [List.contains_iff_mem, mem_reachable_iff, reaches_iff]
  exact ⟨.inr, fun h => h.elim (fun heq => heq ▸ .refl) id⟩

end RectLayout.Design
