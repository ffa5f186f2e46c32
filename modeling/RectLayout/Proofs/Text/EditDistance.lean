import Mathlib.Order.Bounds.Basic
import RectLayout.Text.EditDistance

/-!
# Edits of a text

An edit puts one character into a text, takes one out or replaces one (`Text.Edit`). The least number of edits between
two texts obeys a recursion on their first characters (`Text.levenshtein`): so many edits lead from one to the other
(`edits_levenshtein`), and one edit changes the number by one at most (`levenshtein_le_of_edit`). The rows of the
distance table hold these numbers for the beginnings of the texts, read backwards (`nextRow_distances`), and edits can
be read backwards (`Edits.reverse`), so the last entry is the least number of edits between the texts
(`editDistance_isLeast`).
-/

namespace RectLayout.Text

variable {a b : List Char} {n : Nat}

/-! ## Edits -/

/-- One edit of a text: a character is put in, taken out or replaced. -/
inductive Edit : List Char → List Char → Prop
  | insert (l : List Char) (c : Char) (r : List Char) : Edit (l ++ r) (l ++ c :: r)
  | delete (l : List Char) (c : Char) (r : List Char) : Edit (l ++ c :: r) (l ++ r)
  | replace (l : List Char) (c d : Char) (r : List Char) : Edit (l ++ c :: r) (l ++ d :: r)

/-- The second text comes from the first by a number of edits, one after another. -/
inductive Edits : Nat → List Char → List Char → Prop
  | none (a : List Char) : Edits 0 a a
  | one {n : Nat} {a b c : List Char} : Edits n a b → Edit b c → Edits (n + 1) a c

/-- An edit behind a character. -/
theorem Edit.cons (k : Char) (h : Edit a b) : Edit (k :: a) (k :: b) := by
  cases h with
  | insert l c r => exact .insert (k :: l) c r
  | delete l c r => exact .delete (k :: l) c r
  | replace l c d r => exact .replace (k :: l) c d r

theorem Edits.cons (k : Char) (h : Edits n a b) : Edits n (k :: a) (k :: b) := by
  induction h with
  | none a => exact .none (k :: a)
  | one _ hedit ih => exact .one ih (hedit.cons k)

/-- An edit read backwards. -/
theorem Edit.reverse (h : Edit a b) : Edit a.reverse b.reverse := by
  cases h with
  | insert l c r => simpa using Edit.insert r.reverse c l.reverse
  | delete l c r => simpa using Edit.delete r.reverse c l.reverse
  | replace l c d r => simpa using Edit.replace r.reverse c d l.reverse

theorem Edits.reverse (h : Edits n a b) : Edits n a.reverse b.reverse := by
  induction h with
  | none a => exact .none a.reverse
  | one _ hedit ih => exact .one ih hedit.reverse

/-! ## The recursion of the distance -/

/-- The least number of edits, by recursion on the first characters. -/
def levenshtein : List Char → List Char → Nat
  | [], b => b.length
  | c :: a, [] => (c :: a).length
  | c :: a, d :: b =>
    min (min (levenshtein a (d :: b) + 1) (levenshtein (c :: a) b + 1)) (levenshtein a b + if c = d then 0 else 1)
termination_by a b => a.length + b.length

theorem levenshtein_nil_left (b : List Char) : levenshtein [] b = b.length := by rw [levenshtein]

theorem levenshtein_nil_right (a : List Char) : levenshtein a [] = a.length := by cases a <;> rw [levenshtein]

theorem levenshtein_cons_cons (c d : Char) (a b : List Char) : levenshtein (c :: a) (d :: b) =
    min (min (levenshtein a (d :: b) + 1) (levenshtein (c :: a) b + 1)) (levenshtein a b + if c = d then 0 else 1) := by
  rw [levenshtein]

/-- As many edits as the distance says lead from one text to the other. -/
theorem edits_levenshtein (a b : List Char) : Edits (levenshtein a b) a b := by
  fun_induction levenshtein a b with
  | case1 b =>
    induction b with
    | nil => exact .none []
    | cons d b ih => exact .one ih (.insert [] d b)
  | case2 c a =>
    suffices hall : ∀ a : List Char, Edits a.length a [] from hall (c :: a)
    intro a
    induction a with
    | nil => exact .none []
    | cons c a ih => exact .one (ih.cons c) (.delete [] c [])
  | case3 c a d b ihdelete ihinsert ihkeep =>
    have hdelete := Edits.one (ihdelete.cons c) (.delete [] c (d :: b))
    have hinsert := Edits.one ihinsert (.insert [] d b)
    have hkeep : Edits (levenshtein a b + if c = d then 0 else 1) (c :: a) (d :: b) := by
      by_cases hcd : c = d
      · rw [if_pos hcd, hcd]
        exact ihkeep.cons d
      · rw [if_neg hcd]
        exact .one (ihkeep.cons c) (.replace [] c d b)
    generalize (levenshtein a b + if c = d then 0 else 1) = keep at hkeep ⊢
    rcases (by omega : ∀ x y z : Nat, min (min x y) z = x ∨ min (min x y) z = y ∨ min (min x y) z = z)
      (levenshtein a (d :: b) + 1) (levenshtein (c :: a) b + 1) keep with hmin | hmin | hmin
    · rwa [hmin]
    · rwa [hmin]
    · rwa [hmin]

/-! ## One edit changes the distance by one at most -/

/-- One more character at the front of the first text. -/
theorem levenshtein_cons_left_le (c : Char) (a b : List Char) : levenshtein (c :: a) b ≤ levenshtein a b + 1 := by
  cases b with
  | nil => simp [levenshtein_nil_right]
  | cons d b =>
    rw [levenshtein_cons_cons]
    omega

/-- One more character at the front of the second text. -/
theorem levenshtein_cons_right_le (d : Char) (a b : List Char) : levenshtein a (d :: b) ≤ levenshtein a b + 1 := by
  cases a with
  | nil => simp [levenshtein_nil_left]
  | cons c a =>
    rw [levenshtein_cons_cons]
    omega

/-- One character less at the front of the second text. -/
theorem levenshtein_le_cons_right (d : Char) (a b : List Char) : levenshtein a b ≤ levenshtein a (d :: b) + 1 := by
  induction a with
  | nil =>
    simp only [levenshtein_nil_left, List.length_cons]
    omega
  | cons c a ih =>
    have hc := levenshtein_cons_left_le c a b
    rw [levenshtein_cons_cons]
    omega

/-- Another character at the front of the second text. -/
theorem levenshtein_replace_le (c d : Char) (a b : List Char) :
    levenshtein a (d :: b) ≤ levenshtein a (c :: b) + 1 := by
  induction a with
  | nil => simp [levenshtein_nil_left]
  | cons k a ih =>
    rw [levenshtein_cons_cons, levenshtein_cons_cons]
    have hcost : (if k = d then 0 else 1) ≤ (if k = c then 0 else 1) + 1 := by split_ifs <;> omega
    omega

/-- A change of the second text that raises no distance by more than one may stand behind a character. -/
theorem levenshtein_cons_le_of_le {b b' : List Char} (h : ∀ a, levenshtein a b' ≤ levenshtein a b + 1)
    (hlength : b'.length ≤ b.length + 1) (d : Char) (a : List Char) :
    levenshtein a (d :: b') ≤ levenshtein a (d :: b) + 1 := by
  induction a with
  | nil => simpa [levenshtein_nil_left] using hlength
  | cons c a ih =>
    have hboth := h a
    have hcons := h (c :: a)
    rw [levenshtein_cons_cons, levenshtein_cons_cons]
    omega

/-- One edit of the second text raises the distance by one at most. -/
theorem levenshtein_le_of_edit {b b' : List Char} (h : Edit b b') (a : List Char) :
    levenshtein a b' ≤ levenshtein a b + 1 := by
  have hfront : ∀ (l : List Char) {r r' : List Char}, (∀ a, levenshtein a r' ≤ levenshtein a r + 1) →
      ∀ a, levenshtein a (l ++ r') ≤ levenshtein a (l ++ r) + 1 := by
    intro l r r' hr
    induction l with
    | nil => exact hr
    | cons d l ih => exact levenshtein_cons_le_of_le ih (by simpa [levenshtein_nil_left] using ih []) d
  cases h with
  | insert l c r => exact hfront l (fun a => levenshtein_cons_right_le c a r) a
  | delete l c r => exact hfront l (fun a => levenshtein_le_cons_right c a r) a
  | replace l c d r => exact hfront l (fun a => levenshtein_replace_le c d a r) a

theorem levenshtein_self (a : List Char) : levenshtein a a = 0 := by
  induction a with
  | nil => exact levenshtein_nil_left []
  | cons c a ih =>
    rw [levenshtein_cons_cons, ih, if_pos rfl]
    omega

theorem levenshtein_le_of_edits (h : Edits n a b) : levenshtein a b ≤ n := by
  induction h with
  | none a => exact Nat.le_of_eq (levenshtein_self a)
  | one _ hedit ih => exact Nat.le_trans (levenshtein_le_of_edit hedit _) (Nat.add_le_add_right ih 1)

/-! ## The distance table -/

/-- The distances from `a` of the beginnings of `ds`, read backwards and followed by `b`. -/
def distances (a b : List Char) : List Char → List Nat
  | [] => []
  | d :: ds => levenshtein a (d :: b) :: distances a (d :: b) ds

theorem nextRow_distances (c : Char) (a b ds : List Char) :
    nextRow c (levenshtein a b) (levenshtein (c :: a) b) ds (distances a b ds) = distances (c :: a) b ds := by
  induction ds generalizing b with
  | nil => rfl
  | cons d ds ih =>
    rw [distances, nextRow, ← levenshtein_cons_cons, ih]
    rfl

theorem getLast_distances (a b ds : List Char) :
    (levenshtein a b :: distances a b ds).getLast (List.cons_ne_nil _ _) = levenshtein a (ds.reverse ++ b) := by
  induction ds generalizing b with
  | nil => rfl
  | cons d ds ih =>
    rw [distances, List.getLast_cons_cons, ih, List.reverse_cons, List.append_assoc, List.singleton_append]

theorem distances_nil (b ds : List Char) :
    distances [] b ds = (List.range ds.length).map fun i => i + b.length + 1 := by
  induction ds generalizing b with
  | nil => rfl
  | cons d ds ih =>
    rw [distances, ih, levenshtein_nil_left, List.length_cons, List.length_cons, List.range_succ_eq_map, List.map_cons,
      List.map_map]
    simp [Function.comp_def, Nat.add_assoc, Nat.add_comm 1]

/-- From the row of a text on, the table leads to the distance of the text that goes on it, read backwards. -/
theorem lastEntry_distances (a target cs : List Char) :
    lastEntry target a.length (distances a [] target) cs = levenshtein (cs.reverse ++ a) target.reverse := by
  induction cs generalizing a with
  | nil =>
    rw [lastEntry, List.reverse_nil, List.nil_append, ← List.append_nil target.reverse, ← getLast_distances]
    simp only [levenshtein_nil_right]
  | cons c cs ih =>
    have hrow := nextRow_distances c a [] target
    rw [levenshtein_nil_right, levenshtein_nil_right, List.length_cons] at hrow
    rw [lastEntry, hrow, ← List.length_cons (a := c), ih, List.reverse_cons, List.append_assoc, List.singleton_append]

theorem editDistance_eq_levenshtein (a b : List Char) : editDistance a b = levenshtein a.reverse b.reverse := by
  have hlast := lastEntry_distances [] b a
  rwa [distances_nil, List.append_nil] at hlast

/-- The edit distance is the least number of edits that lead from one text to the other. -/
theorem editDistance_isLeast (a b : List Char) : IsLeast {n | Edits n a b} (editDistance a b) := by
  rw [editDistance_eq_levenshtein]
  refine ⟨?_, fun n hn => levenshtein_le_of_edits hn.reverse⟩
  have hedits := (edits_levenshtein a.reverse b.reverse).reverse
  rwa [List.reverse_reverse, List.reverse_reverse] at hedits

end RectLayout.Text
