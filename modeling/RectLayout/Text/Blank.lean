/-!
# Blanks

`isBlank` is the Unicode property `White_Space`, by code point; `trim` removes the blanks on both sides of a text and
keeps those inside. Nothing is lost but blanks (`trim_eq_self`).
-/

namespace RectLayout.Text

/-- The code points with the property `White_Space`, as closed ranges. -/
def blankRanges : List (Nat × Nat) :=
  [(0x9, 0xD), (0x20, 0x20), (0x85, 0x85), (0xA0, 0xA0), (0x1680, 0x1680), (0x2000, 0x200A), (0x2028, 0x2029),
    (0x202F, 0x202F), (0x205F, 0x205F), (0x3000, 0x3000)]

/-- A blank is a character with the property `White_Space`. -/
def isBlank (c : Char) : Bool := blankRanges.any fun r => r.1 ≤ c.toNat && c.toNat ≤ r.2

/-- The text from its first character that is not a blank on. -/
def trimLeft (cs : List Char) : List Char := cs.dropWhile isBlank

/-- The text up to its last character that is not a blank. -/
def trimRight (cs : List Char) : List Char := (cs.reverse.dropWhile isBlank).reverse

/-- The text without the blanks around it. -/
def trim (cs : List Char) : List Char := trimRight (trimLeft cs)

/-- A text without blanks at its ends is its own trimming. -/
theorem trim_eq_self {cs : List Char} (hd : ∀ c ∈ cs.head?, isBlank c = false) (hl : ∀ c ∈ cs.getLast?, isBlank c = false) :
    trim cs = cs := by
  have h₁ : trimLeft cs = cs := by
    cases cs with
    | nil => rfl
    | cons c r => simp [trimLeft, hd c (by simp)]
  rw [trim, h₁, trimRight]
  cases h : cs.reverse with
  | nil => simpa using h
  | cons c r =>
    have hc : cs.getLast? = some c := by rw [List.getLast?_eq_head?_reverse, h]; rfl
    rw [List.dropWhile_cons_of_neg (by simp [hl c (by simp [hc])]), ← h, List.reverse_reverse]

end RectLayout.Text
