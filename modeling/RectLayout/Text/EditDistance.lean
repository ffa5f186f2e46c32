/-!
# Edit distance

The Levenshtein distance of two texts counts the insertions, deletions and substitutions of single characters that
lead from one to the other. `similar` picks from a list of names those near to a given one.
-/

namespace RectLayout.Text

/-- The row of distances after one more character `c` of the first text. `prev` is the row before it, `diagonal` the
entry of `prev` to the left of its head, and `left` the entry to the left in the new row. -/
def nextRow (c : Char) (diagonal left : Nat) : List Char → List Nat → List Nat
  | d :: ds, up :: prev =>
    let here := min (min (up + 1) (left + 1)) (diagonal + if c = d then 0 else 1)
    here :: nextRow c up here ds prev
  | _, _ => []

/-- The last entry of the distance table, from its current row `first :: row` on. -/
def lastEntry (target : List Char) (first : Nat) (row : List Nat) : List Char → Nat
  | [] => (first :: row).getLast (by simp)
  | c :: cs => lastEntry target (first + 1) (nextRow c first (first + 1) target row) cs

/-- The least number of single-character edits between two texts. -/
def editDistance (a b : List Char) : Nat := lastEntry b 0 ((List.range b.length).map (· + 1)) a

/-- The order of suggestions: nearer names first, equally near ones by their characters. -/
def nearerFirst (a b : Nat × String) : Bool := a.1 < b.1 || (a.1 == b.1 && decide (a.2 ≤ b.2))

/-- At most three of the names that differ from `target` by at least one and at most `bound` edits, each name once,
nearest first. -/
def similar (names : List String) (target : String) (bound : Nat) : List String :=
  let near := names.filterMap fun name =>
    let distance := editDistance name.toList target.toList
    if 0 < distance && distance ≤ bound then some (distance, name) else none
  ((near.mergeSort nearerFirst).eraseDups.map Prod.snd).take 3

end RectLayout.Text
