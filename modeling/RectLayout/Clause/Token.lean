import RectLayout.Clause.Basic
import RectLayout.Clause.Error
import RectLayout.Clause.Keyword

/-!
# Tokens

`Token.lex` splits one side of a clause into signs, stars, names and numbers, each with its place in the clause. A
token is the longest that starts at its place; between tokens stand spaces, tabs and line ends. A place at which
nothing starts is an error that covers one character.
-/

namespace RectLayout

inductive Token (α : Type) where
  | plus
  | minus
  | star
  | name (s : String)
  | number (x : α)
  deriving DecidableEq, Repr

/-- A value with its place in the clause. -/
structure Located (β : Type) where
  value : β
  span : Span
  deriving DecidableEq, Repr

/-- The number of bytes that a text takes in UTF-8. -/
def byteLength : List Char → Nat
  | [] => 0
  | c :: r => c.utf8Size + byteLength r

namespace Token

/-! ## Numbers -/

/-- Digits with an optional point, at the front of a text: the characters, and the number they write. A point needs a
digit on one side of it. -/
def scanMantissa? (cs : List Char) : Option (List Char × Decimal) :=
  let whole := cs.takeWhile Char.isDigit
  match cs.dropWhile Char.isDigit with
  | '.' :: r =>
    let fraction := r.takeWhile Char.isDigit
    if whole.isEmpty && fraction.isEmpty then none
    else some (whole ++ '.' :: fraction, ⟨Decimal.ofDigits (whole ++ fraction), -fraction.length⟩)
  | _ => if whole.isEmpty then none else some (whole, ⟨Decimal.ofDigits whole, 0⟩)

/-- The sign at the front of a text, if there is one, and the digits after it. -/
def scanSigned (cs : List Char) : List Char × List Char :=
  match cs with
  | '+' :: r => (['+'], r.takeWhile Char.isDigit)
  | '-' :: r => (['-'], r.takeWhile Char.isDigit)
  | r => ([], r.takeWhile Char.isDigit)

/-- The power of ten at the front of a text: its characters and its exponent. A letter `e` without digits is none. -/
def scanExponent (cs : List Char) : List Char × Int :=
  match cs with
  | e :: r =>
    let (sign, digits) := scanSigned r
    if (e == 'e' || e == 'E') && !digits.isEmpty then
      (e :: sign ++ digits, if sign = ['-'] then -(Decimal.ofDigits digits : Int) else Decimal.ofDigits digits)
    else ([], 0)
  | [] => ([], 0)

/-- The longest number at the front of a text: its characters and its value. -/
def scanNumber? (cs : List Char) : Option (List Char × Decimal) :=
  (scanMantissa? cs).map fun (mantissa, d) =>
    let (power, e) := scanExponent (cs.drop mantissa.length)
    (mantissa ++ power, { d with exponent := d.exponent + e })

/-! ## Tokens of a side -/

section

variable {α : Type} [Scalar α]

/-- The longest token at the front of a text, with its characters. -/
def scan? (cs : List Char) : Option (Token α × List Char) :=
  match cs with
  | [] => none
  | '+' :: _ => some (.plus, ['+'])
  | '-' :: _ => some (.minus, ['-'])
  | '*' :: _ => some (.star, ['*'])
  | c :: r =>
    if c.isAlpha || c == '_' then
      let word := c :: r.takeWhile Keyword.isWordChar
      some (.name (String.ofList word), word)
    else (scanNumber? cs).map fun (lexeme, d) => (.number (Scalar.ofDecimal d), lexeme)

theorem scanMantissa?_ne_nil {cs l : List Char} {d : Decimal} (h : scanMantissa? cs = some (l, d)) : l ≠ [] := by
  simp only [scanMantissa?] at h
  split at h <;> split at h
  · simp at h
  · simp only [Option.some.injEq, Prod.mk.injEq] at h
    rw [← h.1]
    simp
  · simp at h
  · simp only [Option.some.injEq, Prod.mk.injEq] at h
    rw [← h.1]
    simp_all

theorem scanNumber?_ne_nil {cs l : List Char} {d : Decimal} (h : scanNumber? cs = some (l, d)) : l ≠ [] := by
  simp only [scanNumber?, Option.map_eq_some_iff] at h
  obtain ⟨⟨m, d'⟩, hm, h⟩ := h
  simp only [Prod.mk.injEq] at h
  rw [← h.1]
  simp [scanMantissa?_ne_nil hm]

/-- A token has at least one character. -/
theorem scan?_ne_nil {cs l : List Char} {t : Token α} (h : scan? cs = some (t, l)) : l ≠ [] := by
  simp only [scan?] at h
  split at h
  · simp at h
  · simp [← (Prod.mk.inj (Option.some.inj h)).2]
  · simp [← (Prod.mk.inj (Option.some.inj h)).2]
  · simp [← (Prod.mk.inj (Option.some.inj h)).2]
  · split at h
    · simp only [Option.some.injEq, Prod.mk.injEq] at h
      rw [← h.2]
      simp
    · simp only [Option.map_eq_some_iff] at h
      obtain ⟨⟨l', d⟩, hl, h⟩ := h
      simp only [Prod.mk.injEq] at h
      rw [← h.2]
      exact scanNumber?_ne_nil hl

/-- The blanks that may stand between tokens. -/
def isGap (c : Char) : Bool := c == ' ' || c == '\t' || c == '\n' || c == '\r'

/-- The tokens of a text that starts at byte `offset` of the clause, or the first character that starts none, with its
place. -/
def lexFrom (offset : Nat) (cs : List Char) : Except (Located Char) (List (Located (Token α))) :=
  match cs with
  | [] => .ok []
  | c :: r =>
    if isGap c then lexFrom (offset + c.utf8Size) r
    else
      match _h : scan? (α := α) (c :: r) with
      | none => .error ⟨c, offset, offset + c.utf8Size⟩
      | some (t, lexeme) =>
        let stop := offset + byteLength lexeme
        (⟨t, offset, stop⟩ :: ·) <$> lexFrom stop ((c :: r).drop lexeme.length)
termination_by cs.length
decreasing_by
  · simp
  · have := List.length_pos_iff.mpr (scan?_ne_nil _h)
    simp
    omega

/-- The tokens of `input`, a part of `clause` that starts at byte `offset`. -/
def lex (input : List Char) (offset : Nat) (clause : String) : Except ClauseError (List (Located (Token α))) :=
  (lexFrom offset input).mapError fun bad => .unknownToken clause (String.singleton bad.value) bad.span

/-- How a token is named in messages. -/
def describe : Token α → String
  | plus => "'+'"
  | minus => "'-'"
  | star => "'*'"
  | name s => s!"name '{s}'"
  | number x => "number " ++ Scalar.text x

end

end Token

end RectLayout
