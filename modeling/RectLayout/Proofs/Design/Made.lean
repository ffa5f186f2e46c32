import RectLayout.Design.File
import RectLayout.Proofs.Design.InPlace
import RectLayout.Proofs.Library.Import

/-!
# How designs are made

A design is empty, built from a file, imported from a library, or one of these changed by operations (`Design.Made`).
Building and importing edit an empty design as anyone can, one object after another (`reachable_build`,
`reachable_toDesign`), so every design that is made is reached by a run of operations (`Made.reachable`). Hence it is
well-formed; an instance is refused exactly if it would close a circle; and an edit that fails leaves the design as it
was (`Made.wellFormed_and_refuses`).
-/

namespace RectLayout

open Design Walk

variable {α : Type} [Scalar α] {d e : Design α} {c k t : CellId}

/-! ## Files -/

namespace DesignFile

variable {f : DesignFile α} {scope scope' : Scope}

theorem reachable_addPolygonEntry (h : d.Reachable) {p : PolygonEntry α}
    (hp : addPolygonEntry c (d, scope) p = .ok (e, scope')) : e.Reachable := by
  obtain ⟨⟨d₁, id⟩, hadd, hp⟩ := bind_eq_ok_iff.mp hp
  dsimp only at hp
  have h₁ := h.of_addPolygon hadd
  split at hp
  · obtain ⟨d₂, hbox, hp⟩ := bind_eq_ok_iff.mp hp
    cases hp
    exact h₁.of_setBox hbox
  · cases hp
    exact h₁

theorem reachable_addInstanceEntry (h : d.Reachable) {i : InstanceEntry}
    (hi : addInstanceEntry f c (d, scope) i = .ok (e, scope')) : e.Reachable := by
  unfold addInstanceEntry at hi
  dsimp only at hi
  split at hi
  · cases hi
  · obtain ⟨⟨d₁, id⟩, hadd, hi⟩ := bind_eq_ok_iff.mp hi
    cases hi
    exact h.of_addInstance hadd

theorem reachable_addConstraintEntry (h : d.Reachable) {entryName : String} {q : ConstraintEntry}
    (hq : addConstraintEntry entryName c scope d q = .ok e) : e.Reachable := by
  obtain ⟨subject, -, hq⟩ := bind_eq_ok_iff.mp hq
  obtain ⟨object, -, hq⟩ := bind_eq_ok_iff.mp hq
  exact h.of_apply (show d.apply (.constrain c subject q.clause object) = .ok e from hq)

theorem reachable_addEntry (h : d.Reachable) {entry : CellEntry α} (he : addEntry f d entry = .ok e) :
    e.Reachable := by
  unfold addEntry at he
  split at he
  · cases he
  · rename_i k _
    obtain ⟨⟨d₁, scope₁⟩, hpolygons, he⟩ := bind_eq_ok_iff.mp he
    obtain ⟨⟨d₂, scope₂⟩, hinstances, he⟩ := bind_eq_ok_iff.mp he
    have h₁ : d₁.Reachable := foldlM_keeps (P := fun s : Design α × Scope => s.1.Reachable)
      (fun s hs _ _ s' hs' => reachable_addPolygonEntry hs hs') h hpolygons
    have h₂ : d₂.Reachable := foldlM_keeps (P := fun s : Design α × Scope => s.1.Reachable)
      (fun s hs _ _ s' hs' => reachable_addInstanceEntry hs hs') h₁ hinstances
    exact foldlM_keeps (fun s hs _ _ s' hs' => reachable_addConstraintEntry hs hs') h₂ he

theorem reachable_addCells (l : List (CellEntry α)) (h : d.Reachable) :
    (l.foldl (fun d e => (d.addCell e.name).1) d).Reachable := by
  induction l generalizing d with
  | nil => exact h
  | cons entry l ih => exact ih (h.of_apply (show d.apply (.addCell entry.name) = .ok _ from rfl))

/-- A file describes a design that operations can reach. -/
theorem reachable_build (h : f.build = .ok (d, c)) : d.Reachable := by
  obtain ⟨d₁, hentries, h⟩ := bind_eq_ok_iff.mp h
  have h₁ : d₁.Reachable := foldlM_keeps (fun s hs _ _ s' hs' => reachable_addEntry hs hs')
    (reachable_addCells f.cells ⟨[], rfl⟩) hentries
  split at h
  · cases h
    exact h₁
  · cases h

end DesignFile

/-! ## Libraries -/

namespace Library

variable {lib : Library α} {config : ImportConfig α}

theorem reachable_importRect (h : d.Reachable) {r : LibraryRect} {n : Nat} (hr : importRect config c d r n = .ok e) :
    e.Reachable := by
  unfold importRect at hr
  split at hr
  · cases hr
  · obtain ⟨⟨d₁, p⟩, hadd, hr⟩ := bind_eq_ok_iff.mp hr
    exact (h.of_addPolygon hadd).of_setBox hr

theorem reachable_importRef (h : d.Reachable) {r : LibraryRef} (hr : importRef config c d r t = .ok e) :
    e.Reachable := by
  obtain ⟨⟨d₁, i⟩, hadd, hr⟩ := bind_eq_ok_iff.mp hr
  exact (h.of_addInstance hadd).of_setBox hr

theorem reachable_importContent (h : d.Reachable) {source : LibraryCell} {templates : List CellId}
    (hc : importContent config source templates d = .ok (e, c)) : e.Reachable := by
  obtain ⟨d₁, hrects, hc⟩ := bind_eq_ok_iff.mp hc
  obtain ⟨d₂, hrefs, hc⟩ := bind_eq_ok_iff.mp hc
  have h₀ : (d.addCell source.name).1.Reachable :=
    h.of_apply (show d.apply (.addCell source.name) = .ok _ from rfl)
  have h₁ : d₁.Reachable := foldlM_keeps (fun s hs _ _ s' hs' => reachable_importRect hs hs') h₀ hrects
  have h₂ : d₂.Reachable := foldlM_keeps (fun s hs _ _ s' hs' => reachable_importRef hs hs') h₁ hrefs
  split at hc
  · cases hc
    exact h₂
  · obtain ⟨d₃, hset, hc⟩ := bind_eq_ok_iff.mp hc
    have h₃ := h₂.of_setBox hset
    split at hc
    · obtain ⟨⟨d₄, b⟩, hfreeze, hc⟩ := bind_eq_ok_iff.mp hc
      cases hc
      exact h₃.of_freeze hfreeze
    · cases hc
      exact h₃

/-- A library describes designs that operations can reach. -/
theorem reachable_toDesign {top : String} {layers : ReverseLayers} {ratio : α} {freeze : Bool}
    (h : lib.toDesign top layers ratio freeze = .ok (d, c)) : d.Reachable := by
  obtain ⟨⟨s, k⟩, hcell, h⟩ := bind_eq_ok_iff.mp h
  cases h
  exact importCell_keeps (P := fun s => s.design.Reachable) (fun hs _ _ hcontent => reachable_importContent hs hcontent)
    (s := ⟨.empty, []⟩) .refl ⟨[], rfl⟩ hcell

end Library

/-! ## Designs that are made -/

namespace Design

/-- A design that is empty, built from a file or imported from a library, with operations on it, some of which may have
failed. -/
inductive Made : Design α → Prop where
  | empty : Made empty
  | built {f : DesignFile α} {d : Design α} {top : CellId} : f.build = .ok (d, top) → Made d
  | imported {lib : Library α} {name : String} {layers : ReverseLayers} {ratio : α} {freeze : Bool} {d : Design α}
      {top : CellId} : lib.toDesign name layers ratio freeze = .ok (d, top) → Made d
  | after {d : Design α} (op : Operation α) : Made d → Made (d.after op)

theorem Reachable.after (h : d.Reachable) (op : Operation α) : (d.after op).Reachable := by
  rcases after_cases d op with hsame | happly
  · rwa [hsame]
  · exact h.of_apply happly

/-- Every design that is made is reached from the empty one by operations alone. -/
theorem Made.reachable (h : d.Made) : d.Reachable := by
  induction h with
  | empty => exact ⟨[], rfl⟩
  | built h => exact DesignFile.reachable_build h
  | imported h => exact Library.reachable_toDesign h
  | after op _ ih => exact ih.after op

/-- Every design that is made is well-formed. In it an instance of an existing cell in one that may be edited is refused
exactly if the edge would close a circle, and taken otherwise. An edit that fails leaves the design as it was. -/
theorem Made.wellFormed_and_refuses (h : d.Made) : d.WellFormed ∧
    (∀ c cell t drawn name, d.cell? c = some cell → cell.frozen = none → d.cell? t = some drawn →
      (d.addInstance c name t = .error (.recursiveInstance cell.name drawn.name) ↔
        t = c ∨ Reaches d.templates t c) ∧
      (¬ (t = c ∨ Reaches d.templates t c) → ∃ d' i, d.addInstance c name t = .ok (d', i))) ∧
    d.FailSafe := by
  refine ⟨h.reachable.wellFormed, fun c cell t drawn name hcell hfrozen ht => ?_, failSafe d⟩
  have hreaches : t = c ∨ Reaches d.templates t c ↔ c ∈ d.reachable t := by
    rw [mem_reachable_iff]
    exact ⟨fun h => h.elim (fun heq => heq ▸ .refl) id, .inr⟩
  have htakes : c ∉ d.reachable t → ∃ d' i, d.addInstance c name t = .ok (d', i) := fun hnot =>
    ⟨_, _, addInstance_eq (isActive_iff.mpr ⟨cell, hcell, hfrozen⟩) name (by rw [ht]; rfl) hnot⟩
  rw [hreaches]
  refine ⟨⟨fun herror => ?_, addInstance_recursive hcell hfrozen ht name⟩, htakes⟩
  by_contra hnot
  obtain ⟨d', i, hok⟩ := htakes hnot
  cases hok.symm.trans herror

/-- A row draws a stack, which is listed later and draws a pad twice. -/
def stackFile : DesignFile Rat :=
  ⟨"row",
    [⟨"row", [], [⟨"only", "stack"⟩], []⟩,
      ⟨"stack", [], [⟨"lower", "pad"⟩, ⟨"upper", "pad"⟩], [⟨"lower", "y2<=oy1", some "upper"⟩]⟩,
      ⟨"pad", [⟨"plate", "met1", some ⟨0, 0, 2, 1⟩⟩], [], []⟩]⟩

def stackDesign : Design Rat := (stackFile.build.toOption.map Prod.fst).getD .empty

/-- The pad cannot draw the row, but the row can draw the pad. -/
theorem wellFormed_and_refuses_stackFile : stackFile.build = .ok (stackDesign, ⟨0⟩) ∧
    (stackDesign.after (.addPolygon ⟨1⟩ "rim" "met2")).WellFormed ∧
    (stackDesign.after (.addPolygon ⟨1⟩ "rim" "met2")).addInstance ⟨2⟩ "back" ⟨0⟩ =
      .error (.recursiveInstance "pad" "row") ∧
    (∃ d' i, (stackDesign.after (.addPolygon ⟨1⟩ "rim" "met2")).addInstance ⟨0⟩ "own" ⟨2⟩ = .ok (d', i)) ∧
    (stackDesign.after (.addPolygon ⟨1⟩ "rim" "met2")).FailSafe := by
  have hbuild : stackFile.build = .ok (stackDesign, ⟨0⟩) := by decide +kernel
  obtain ⟨hwell, hrefuses, hsafe⟩ := Made.wellFormed_and_refuses
    (.after (.addPolygon ⟨1⟩ "rim" "met2") (.built hbuild))
  generalize hd : stackDesign.after (.addPolygon ⟨1⟩ "rim" "met2") = d at *
  have hrow : d.cell? ⟨0⟩ = some ⟨"row", [], [⟨0⟩], [], none, none⟩ := by rw [← hd]; decide +kernel
  have hpad : d.cell? ⟨2⟩ = some ⟨"pad", [⟨0⟩], [], [], none, none⟩ := by rw [← hd]; decide +kernel
  refine ⟨hbuild, hwell, ?_, ?_, hsafe⟩
  · refine (hrefuses ⟨2⟩ _ ⟨0⟩ _ "back" hpad rfl hrow).1.mpr (.inr (mem_reachable_iff.mp ?_))
    rw [← hd]
    decide +kernel
  · refine (hrefuses ⟨0⟩ _ ⟨2⟩ _ "own" hrow rfl hpad).2 ?_
    rintro (heq | hr)
    · cases heq
    · have hmem := mem_reachable_iff.mpr hr
      rw [← hd] at hmem
      revert hmem
      decide +kernel

end Design

end RectLayout
