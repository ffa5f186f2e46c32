/-!
# Lines of a text

`lines` cuts a text behind its line ends, each of which stays with the line that it ends; put together again, the lines
are the text (`flatten_lines`), and a text without line ends is one line (`lines_eq_singleton`). `lineOf?` finds the
line on which a character stands.
-/

namespace RectLayout.Text

/-- A character at which a line ends. -/
def isLineEnd (c : Char) : Bool :=
  c = '\n' || c = '\r' || c = '\x0b' || c = '\x0c' || c = '\u0085' || c = '\u2028' || c = '\u2029'

/-- The lines of a text with the characters that end them. A carriage return and a line feed end one line together. -/
def lines : List Char → List (List Char)
  | [] => []
  | '\r' :: '\n' :: r => ['\r', '\n'] :: lines r
  | c :: r =>
    if isLineEnd c then [c] :: lines r
    else match lines r with
      | [] => [[c]]
      | line :: rest => (c :: line) :: rest

/-- No character of a text is lost by cutting it into lines. -/
theorem flatten_lines (cs : List Char) : (lines cs).flatten = cs := by
  fun_induction lines cs with
  | case1 => rfl
  | case2 r ih => simp [ih]
  | case3 c r _ _ ih => simp [ih]
  | case4 c r _ _ hr ih => simpa [hr] using ih
  | case5 c r _ _ line rest hr ih => simpa [hr] using ih

/-- A text without line ends is one line. -/
theorem lines_eq_singleton {cs : List Char} (hne : cs ≠ []) (h : ∀ c ∈ cs, isLineEnd c = false) : lines cs = [cs] := by
  fun_induction lines cs with
  | case1 => exact absurd rfl hne
  | case2 r ih => exact absurd (h '\r' (by simp)) (by decide)
  | case3 c r _ hc ih => rw [h c (by simp)] at hc; cases hc
  | case4 c r _ _ hr ih =>
    cases r with
    | nil => rfl
    | cons d r => rw [ih (by simp) fun x hx => h x (by simp [hx])] at hr; cases hr
  | case5 c r _ _ line rest hr ih =>
    cases r with
    | nil => cases hr
    | cons d r =>
      rw [ih (by simp) fun x hx => h x (by simp [hx])] at hr
      obtain ⟨rfl, rfl⟩ := List.cons.inj hr
      rfl

/-- The line on which the character at an index of the text stands, counted from 0, and its index on that line. The
place behind the last character belongs to the last line. -/
def lineOf? : List (List Char) → Nat → Option (Nat × Nat)
  | [], _ => none
  | [line], i => if i ≤ line.length then some (0, i) else none
  | line :: rest, i =>
    if i < line.length then some (0, i) else (lineOf? rest (i - line.length)).map fun (n, column) => (n + 1, column)

end RectLayout.Text
