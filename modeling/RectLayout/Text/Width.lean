import RectLayout.Text.Blank
import RectLayout.Text.Width.Ranges

/-!
# Display width

`columns` is the number of terminal columns that a character fills at a given column: a tab reaches the next multiple
of four, ideographs and other wide characters fill two columns, marks that combine with the character before them none.
-/

namespace RectLayout.Text

/-- Whether a code point lies in one of some closed ranges. -/
def inRanges (ranges : List (Nat × Nat)) (c : Char) : Bool := ranges.any fun r => r.1 ≤ c.toNat && c.toNat ≤ r.2

/-- The columns that a character fills when it starts at column `column`. Two letters of Khmer stand for a group of
others and are as wide as that. -/
def columns (c : Char) (column : Nat) : Nat :=
  if c = '\t' then (column / 4 + 1) * 4 - column
  else if isBlank c then 1
  else if c = '\u17a4' then 2
  else if c = '\u17d8' then 3
  else if inRanges zeroWidthRanges c then 0
  else if inRanges wideRanges c then 2
  else 1

end RectLayout.Text
