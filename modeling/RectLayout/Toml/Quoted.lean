/-!
# Quoted text

A text stands between double quotes, in which a backslash starts an escape, or between single quotes, in which it
stands for itself. Three quotes instead of one let it go over several lines: a line end after the opening quotes is
dropped, and a backslash at the end of a line takes away the line end and the blanks after it. `read?` takes one quoted
text off the front of a document and leaves the rest.
-/

namespace RectLayout.Toml

/-- A blank between the parts of a line. -/
def isBlank (c : Char) : Bool := c == ' ' || c == '\t'

/-- A character that may stand for itself in a comment or between quotes: a tab, or one that is no control character
of ASCII. -/
def isPlain (c : Char) : Bool := c == '\t' || (' ' ≤ c && c != '\x7f')

namespace Quoted

/-- The value of a hexadecimal digit. -/
def hexDigit? (c : Char) : Option Nat :=
  if c.isDigit then some (c.toNat - '0'.toNat)
  else if 'a' ≤ c ∧ c ≤ 'f' then some (c.toNat - 'a'.toNat + 10)
  else if 'A' ≤ c ∧ c ≤ 'F' then some (c.toNat - 'A'.toNat + 10)
  else none

/-- The character whose code point hexadecimal digits write. -/
def codePoint? (digits : List Char) : Option Char := do
  let n ← digits.foldlM (fun n c => (16 * n + ·) <$> hexDigit? c) 0
  if n.isValidChar then some (Char.ofNat n) else none

/-- The letters that stand for a character after a backslash. -/
def letterEscapes : List (Char × Char) :=
  [('b', '\x08'), ('t', '\t'), ('n', '\n'), ('f', '\x0c'), ('r', '\r'), ('"', '"'), ('\\', '\\')]

/-- The character whose code point the first `n` characters write, and the rest. -/
def hexEscape? (n : Nat) (cs : List Char) : Option (Char × List Char) :=
  if n ≤ cs.length then (codePoint? (cs.take n)).map fun c => (c, cs.drop n) else none

/-- The character of an escape, given what follows the backslash, and the rest. -/
def escape? : List Char → Option (Char × List Char)
  | [] => none
  | c :: r =>
    if c = 'u' then hexEscape? 4 r
    else if c = 'U' then hexEscape? 8 r
    else (letterEscapes.lookup c).map fun c => (c, r)

/-- The text after its blanks and line ends. -/
def dropLineEnds : List Char → List Char
  | '\r' :: '\n' :: r => dropLineEnds r
  | c :: r => if c = '\n' || isBlank c then dropLineEnds r else c :: r
  | [] => []

/-- The text after a line end at its front. -/
def lineEnd? : List Char → Option (List Char)
  | '\n' :: r => some r
  | '\r' :: '\n' :: r => some r
  | _ => none

/-- The quotes that close a text at the front of `cs`: those among them that belong to it, and the rest. Of a run of
quotes the last three close a text of several lines, and at most two before them belong to it. -/
def closing? (quote : Char) (tripled : Bool) (cs : List Char) : Option (List Char × List Char) :=
  let run := (cs.takeWhile (· == quote)).length
  if tripled then
    let inside := min 2 (run - 3)
    if 3 ≤ run then some (List.replicate inside quote, cs.drop (inside + 3)) else none
  else if run = 0 then none
  else some ([], cs.drop 1)

/-- The first piece of a text that does not close there, as it reads, and the rest. -/
def piece? (quote : Char) (tripled : Bool) : List Char → Option (List Char × List Char)
  | [] => none
  | c :: r =>
    if c = '\\' ∧ quote = '"' then
      match if tripled then lineEnd? (r.dropWhile isBlank) else none with
      | some r => some ([], dropLineEnds r)
      | none => (escape? r).map fun (c, r) => ([c], r)
    else if isPlain c then some ([c], r)
    else if tripled then (lineEnd? (c :: r)).map fun r => (['\n'], r)
    else none

/-! ## Every piece takes something off the text -/

theorem hexEscape?_length {n : Nat} {cs r : List Char} {c : Char} (h : hexEscape? n cs = some (c, r)) :
    r.length ≤ cs.length := by
  unfold hexEscape? at h
  split at h
  · obtain ⟨_, -, h⟩ := Option.map_eq_some_iff.mp h
    cases h
    simp
  · cases h

theorem escape?_length {cs r : List Char} {c : Char} (h : escape? cs = some (c, r)) : r.length < cs.length := by
  cases cs with
  | nil => simp [escape?] at h
  | cons d cs =>
    simp only [escape?] at h
    split at h
    · exact Nat.lt_succ_of_le (hexEscape?_length h)
    · split at h
      · exact Nat.lt_succ_of_le (hexEscape?_length h)
      · obtain ⟨_, -, h⟩ := Option.map_eq_some_iff.mp h
        cases h
        simp

theorem dropLineEnds_length (cs : List Char) : (dropLineEnds cs).length ≤ cs.length := by
  fun_induction dropLineEnds cs <;> simp_all <;> omega

theorem lineEnd?_length {cs r : List Char} (h : lineEnd? cs = some r) : r.length < cs.length := by
  unfold lineEnd? at h
  split at h
  · cases h
    exact Nat.lt_succ_self _
  · cases h
    exact Nat.lt_succ_of_lt (Nat.lt_succ_self _)
  · cases h

theorem piece?_length {quote : Char} {tripled : Bool} {cs t r : List Char}
    (h : piece? quote tripled cs = some (t, r)) : r.length < cs.length := by
  cases cs with
  | nil => simp [piece?] at h
  | cons c cs =>
    simp only [piece?] at h
    split at h
    · split at h
      · next r' hr =>
        have hl : r'.length < (cs.dropWhile isBlank).length := by
          split at hr
          · exact lineEnd?_length hr
          · simp at hr
        have := (List.dropWhile_sublist isBlank (l := cs)).length_le
        have := dropLineEnds_length r'
        simp only [Option.some.injEq, Prod.mk.injEq] at h
        rw [← h.2]
        simp
        omega
      · simp only [Option.map_eq_some_iff, Prod.mk.injEq] at h
        obtain ⟨⟨c', r'⟩, hr, -, rfl⟩ := h
        have := escape?_length hr
        simp
        omega
    · split at h
      · simp_all
      · split at h
        · simp only [Option.map_eq_some_iff, Prod.mk.injEq] at h
          obtain ⟨r', hr, -, rfl⟩ := h
          exact lineEnd?_length hr
        · simp at h

/-! ## Whole texts -/

/-- The text up to its closing quotes, and what follows them. -/
def readBody? (quote : Char) (tripled : Bool) (cs : List Char) : Option (List Char × List Char) :=
  match closing? quote tripled cs with
  | some closed => some closed
  | none =>
    match _h : piece? quote tripled cs with
    | none => none
    | some (t, r) => (readBody? quote tripled r).map fun (u, rest) => (t ++ u, rest)
termination_by cs.length
decreasing_by exact piece?_length _h

/-- A text between single quotes or double quotes on one line. -/
def readLine? : List Char → Option (String × List Char)
  | '"' :: r => (readBody? '"' false r).map fun (t, r) => (String.ofList t, r)
  | '\'' :: r => (readBody? '\'' false r).map fun (t, r) => (String.ofList t, r)
  | _ => none

/-- A text between quotes of any kind. -/
def read? (cs : List Char) : Option (String × List Char) :=
  let lines (quote : Char) (r : List Char) :=
    (readBody? quote true ((lineEnd? r).getD r)).map fun (t, r) => (String.ofList t, r)
  match cs with
  | '"' :: '"' :: '"' :: r => lines '"' r
  | '\'' :: '\'' :: '\'' :: r => lines '\'' r
  | _ => readLine? cs

end Quoted

end RectLayout.Toml
