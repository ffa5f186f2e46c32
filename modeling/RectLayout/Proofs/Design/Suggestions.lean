import Mathlib.Data.List.Sort
import Mathlib.Data.Prod.Lex
import Mathlib.Data.String.Basic
import Mathlib.Tactic.Tauto
import RectLayout.Design.File
import RectLayout.Proofs.Text.EditDistance

/-!
# Suggestions

The names that are suggested for an unknown one are the first three of those near to it, the nearer ones first
(`Text.similar_eq_take`, `Text.mem_near_iff`, `Text.pairwise_near`). Sorting and leaving out repetitions makes a list
that is determined by its members, so the suggestions depend on which names there are, and not on the order in which
they are listed or on how often (`Text.similar_congr`). So a design file is built to the same result, suggestions
included, in whatever order its scopes list their names (`DesignFile.buildBy_eq`, `suggestions_determined`).
-/

namespace RectLayout

/-! ## Suggestions among a list of names -/

namespace Text

variable {names names' : List String} {target s : String} {bound : Nat}

/-- In a list in order, the elements that are left without repetitions are in order and different. -/
theorem pairwise_eraseDups {β : Type} [BEq β] [LawfulBEq β] {R : β → β → Prop} {l : List β} (h : l.Pairwise R) :
    l.eraseDups.Pairwise fun a b => R a b ∧ a ≠ b := by
  induction hn : l.length using Nat.strong_induction_on generalizing l with
  | _ n ih =>
    cases l with
    | nil => exact .nil
    | cons a l =>
      obtain ⟨ha, hl⟩ := List.pairwise_cons.mp h
      have hlength := List.length_filter_le (fun b => !b == a) l
      rw [List.length_cons] at hn
      rw [List.eraseDups_cons]
      refine List.pairwise_cons.mpr ⟨fun b hb => ?_, ih _ (by omega) (hl.filter _) rfl⟩
      obtain ⟨hb, hne⟩ := List.mem_filter.mp (List.mem_eraseDups.mp hb)
      exact ⟨ha b hb, by rintro rfl; simp at hne⟩

/-- The place of a name among the suggestions: its distance, and the name itself for names equally near. -/
def rank (target s : String) : Nat ×ₗ String := toLex (editDistance s.toList target.toList, s)

/-- Suggestions are ordered by their ranks. -/
theorem nearerFirst_iff {p q : Nat × String} : nearerFirst p q ↔ toLex p ≤ toLex q := by
  rw [Prod.Lex.toLex_le_toLex]
  simp [nearerFirst]

/-- The names near to a given one with their distances, without repetitions, the nearer ones first. -/
def ranked (names : List String) (target : String) (bound : Nat) : List (Nat × String) :=
  ((names.filterMap fun name =>
    let distance := editDistance name.toList target.toList
    if 0 < distance && distance ≤ bound then some (distance, name) else none).mergeSort nearerFirst).eraseDups

/-- The names near to a given one, without repetitions, the nearer ones first. -/
def near (names : List String) (target : String) (bound : Nat) : List String :=
  (ranked names target bound).map Prod.snd

theorem similar_eq_take (names : List String) (target : String) (bound : Nat) :
    similar names target bound = (near names target bound).take 3 := rfl

theorem mem_ranked_iff {p : Nat × String} : p ∈ ranked names target bound ↔
    p.2 ∈ names ∧ p.1 = editDistance p.2.toList target.toList ∧ 1 ≤ p.1 ∧ p.1 ≤ bound := by
  obtain ⟨n, s⟩ := p
  simp only [ranked, List.mem_eraseDups, List.mem_mergeSort, List.mem_filterMap, Option.ite_none_right_eq_some,
    Bool.and_eq_true, decide_eq_true_eq, Option.some.injEq, Prod.mk.injEq]
  constructor
  · rintro ⟨name, hname, ⟨hpos, hle⟩, rfl, rfl⟩
    exact ⟨hname, rfl, hpos, hle⟩
  · rintro ⟨hname, rfl, hpos, hle⟩
    exact ⟨s, hname, ⟨hpos, hle⟩, rfl, rfl⟩

theorem mem_near_iff : s ∈ near names target bound ↔
    s ∈ names ∧ 1 ≤ editDistance s.toList target.toList ∧ editDistance s.toList target.toList ≤ bound := by
  simp only [near, List.mem_map, mem_ranked_iff]
  constructor
  · rintro ⟨p, ⟨hname, hdistance, hrange⟩, rfl⟩
    rw [← hdistance]
    exact ⟨hname, hrange⟩
  · rintro ⟨hname, hrange⟩
    exact ⟨(_, s), ⟨hname, rfl, hrange⟩, rfl⟩

theorem pairwise_near (names : List String) (target : String) (bound : Nat) :
    (near names target bound).Pairwise fun s t => rank target s < rank target t := by
  have hsorted : (ranked names target bound).Pairwise fun p q => toLex p < toLex q := by
    refine (pairwise_eraseDups (List.pairwise_mergeSort (fun p q r => ?_) (fun p q => ?_) _)).imp fun ⟨hle, hne⟩ => ?_
    · simp only [nearerFirst_iff]
      exact le_trans
    · simp only [Bool.or_eq_true, nearerFirst_iff]
      exact le_total _ _
    · exact lt_of_le_of_ne (nearerFirst_iff.mp hle) fun h => hne (toLex.injective h)
  refine List.pairwise_map.mpr (hsorted.imp_of_mem fun hp hq hlt => ?_)
  rw [rank, rank, ← (mem_ranked_iff.mp hp).2.1, ← (mem_ranked_iff.mp hq).2.1]
  exact hlt

/-- The names near to a given one depend on which names there are. -/
theorem near_congr (h : ∀ s, s ∈ names' ↔ s ∈ names) (target : String) (bound : Nat) :
    near names' target bound = near names target bound := by
  have hantisymm : Std.Antisymm fun s t => rank target s < rank target t := ⟨fun _ _ h h' => absurd h' h.asymm⟩
  have hirrefl : Std.Irrefl fun s t => rank target s < rank target t := ⟨fun _ => lt_irrefl _⟩
  refine (pairwise_near names' target bound).eq_of_mem_iff (pairwise_near names target bound) fun s => ?_
  rw [mem_near_iff, mem_near_iff, h]

theorem similar_congr (h : ∀ s, s ∈ names' ↔ s ∈ names) (target : String) (bound : Nat) :
    similar names' target bound = similar names target bound := by
  rw [similar_eq_take, similar_eq_take, near_congr h]

end Text

/-! ## Suggestions of a design file -/

namespace DesignFile

variable {α : Type}

/-- The object of a name in an entry, where suggestions are looked for in the order in which `keys` lists the names of
the scope. -/
def Scope.resolveBy (keys : Scope → List String) (scope : Scope) (entryName name : String) : Except LayoutError Node :=
  match scope.lookup name with
  | some n => .ok n
  | none => .error (.undefinedName name s!"cell '{entryName}'" (Text.similar (keys scope) name suggestionDistance))

/-- The design with a constraint of an entry, where scopes list their names in any order. -/
def addConstraintEntryBy (keys : Scope → List String) (entryName : String) (c : CellId) (scope : Scope) (d : Design α)
    (k : ConstraintEntry) : Except LayoutError (Design α) := do
  let subject ← scope.resolveBy keys entryName k.subject
  let object ← k.object.mapM (scope.resolveBy keys entryName)
  d.constrain c subject k.clause object

/-- The design with the first cell of the entry's name filled, where scopes list their names in any order. -/
def addEntryBy (keys : Scope → List String) (f : DesignFile α) (d : Design α) (e : CellEntry α) :
    Except LayoutError (Design α) := do
  match d.cellNamed? e.name with
  | none => .error (f.undefinedCell e.name)
  | some c =>
    let (d, scope) ← e.polygons.foldlM (addPolygonEntry c) (d, [(e.name, .cell c)])
    let (d, scope) ← e.instances.foldlM (addInstanceEntry f c) (d, scope)
    e.constraints.foldlM (addConstraintEntryBy keys e.name c scope) d

/-- The design that a file describes, and its top cell, where scopes list their names in any order. -/
def buildBy (keys : Scope → List String) (f : DesignFile α) : Except LayoutError (Design α × CellId) := do
  let d ← f.cells.foldlM (addEntryBy keys f) (f.cells.foldl (fun d e => (d.addCell e.name).1) .empty)
  match d.cellNamed? f.top with
  | some c => return (d, c)
  | none => .error (f.undefinedCell f.top)

variable {keys : Scope → List String}

theorem resolveBy_eq (h : ∀ (scope : Scope) (s : String), s ∈ keys scope ↔ s ∈ scope.map Prod.fst) (scope : Scope) :
    scope.resolveBy keys = scope.resolve := by
  funext entryName name
  rw [Scope.resolveBy, Text.similar_congr (h scope)]
  rfl

theorem addEntryBy_eq (h : ∀ (scope : Scope) (s : String), s ∈ keys scope ↔ s ∈ scope.map Prod.fst)
    (f : DesignFile α) : f.addEntryBy keys = f.addEntry := by
  have hconstraint : ∀ (entryName : String) (c : CellId) (scope : Scope),
      addConstraintEntryBy (α := α) keys entryName c scope = addConstraintEntry entryName c scope := by
    intro entryName c scope
    funext d k
    rw [addConstraintEntryBy, addConstraintEntry, resolveBy_eq h]
  funext d e
  rw [addEntryBy]
  simp only [hconstraint]
  rfl

/-- A file is built to the same result in whatever order its scopes list their names. -/
theorem buildBy_eq (h : ∀ (scope : Scope) (s : String), s ∈ keys scope ↔ s ∈ scope.map Prod.fst) (f : DesignFile α) :
    f.buildBy keys = f.build := by
  rw [buildBy, addEntryBy_eq h]
  rfl

end DesignFile

/-- Suggestions are the first three of the names that differ from the target by at least one and at most `bound` edits,
in the order of their distances and of the names. They depend on which names there are and on nothing else, so the
suggestions in what a design file is built to are the same in whatever order its scopes list their names. -/
theorem suggestions_determined {α : Type} (names : List String) (target : String) (bound : Nat) :
    (∀ s : String, IsLeast {n | Text.Edits n s.toList target.toList} (Text.editDistance s.toList target.toList)) ∧
    (∃ near : List String,
      (∀ s : String, s ∈ near ↔ s ∈ names ∧ 1 ≤ Text.editDistance s.toList target.toList ∧
        Text.editDistance s.toList target.toList ≤ bound) ∧
      near.Pairwise (fun s t => toLex (Text.editDistance s.toList target.toList, s) <
        toLex (Text.editDistance t.toList target.toList, t)) ∧
      Text.similar names target bound = near.take 3) ∧
    (∀ names' : List String, (∀ s, s ∈ names' ↔ s ∈ names) →
      Text.similar names' target bound = Text.similar names target bound) ∧
    ∀ (f : DesignFile α) (keys : DesignFile.Scope → List String),
      (∀ (scope : DesignFile.Scope) (s : String), s ∈ keys scope ↔ s ∈ scope.map Prod.fst) →
      f.buildBy keys = f.build :=
  ⟨fun s => Text.editDistance_isLeast s.toList target.toList,
    ⟨Text.near names target bound, fun _ => Text.mem_near_iff, Text.pairwise_near names target bound, rfl⟩,
    fun _ h => Text.similar_congr h target bound, fun f _ h => DesignFile.buildBy_eq h f⟩

/-- A file in which the constraint of a cell names none of its objects, but one that is near to three of them. -/
def misnamedFile : DesignFile Rat :=
  ⟨"top", [⟨"top", [⟨"gate", "poly", none⟩, ⟨"gat2", "poly", none⟩, ⟨"cat", "poly", none⟩, ⟨"gate", "poly", none⟩], [],
    [⟨"gat", "width=2", none⟩]⟩]⟩

theorem suggestions_determined_misnamed :
    (∀ s, s ∈ ["cat", "gate", "top", "gat2", "gate"] ↔ s ∈ ["gate", "cat", "gat2", "gate", "top"]) ∧
    Text.similar ["cat", "gate", "top", "gat2", "gate"] "gat" 2 = ["cat", "gat2", "gate"] ∧
    Text.similar ["gate", "cat", "gat2", "gate", "top"] "gat" 2 = ["cat", "gat2", "gate"] ∧
    (∀ (scope : DesignFile.Scope) (s : String), s ∈ (scope.map Prod.fst).reverse ↔ s ∈ scope.map Prod.fst) ∧
    misnamedFile.buildBy (fun scope => (scope.map Prod.fst).reverse) =
      .error (.undefinedName "gat" "cell 'top'" ["cat", "gat2", "gate"]) := by
  have hmembers : ∀ s, s ∈ ["cat", "gate", "top", "gat2", "gate"] ↔ s ∈ ["gate", "cat", "gat2", "gate", "top"] := by
    intro s
    simp only [List.mem_cons, List.not_mem_nil, or_false]
    tauto
  have hnear : (["gate", "cat", "gat2", "gate", "top"].filterMap fun name =>
      let distance := Text.editDistance name.toList "gat".toList
      if 0 < distance && distance ≤ 2 then some (distance, name) else none) =
        [(1, "gate"), (1, "cat"), (1, "gat2"), (1, "gate")] := by decide +kernel
  have hsort : [(1, "gate"), (1, "cat"), (1, "gat2"), (1, "gate")].mergeSort Text.nearerFirst =
      [(1, "cat"), (1, "gat2"), (1, "gate"), (1, "gate")] := by
    simp [List.mergeSort, Text.nearerFirst]
  have hnames : Text.similar ["gate", "cat", "gat2", "gate", "top"] "gat" 2 = ["cat", "gat2", "gate"] := by
    rw [Text.similar, hnear]
    simp only [hsort]
    rfl
  have hbuild : misnamedFile.build = .error (.undefinedName "gat" "cell 'top'" ["cat", "gat2", "gate"]) := by
    rw [← hnames]
    with_unfolding_all rfl
  obtain ⟨-, -, hsame, hkeys⟩ := suggestions_determined (α := Rat) ["gate", "cat", "gat2", "gate", "top"] "gat" 2
  exact ⟨hmembers, (hsame _ hmembers).trans hnames, hnames, fun _ _ => List.mem_reverse,
    (hkeys misnamedFile _ fun _ _ => List.mem_reverse).trans hbuild⟩

end RectLayout
