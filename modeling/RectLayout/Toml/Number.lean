import RectLayout.Decimal.Double
import RectLayout.Scalar
import RectLayout.Toml.Value

/-!
# Values without quotes

Numbers, truth values, dates and times are words of letters, digits and a few marks. `Value.ofWord?` reads a whole
word; `takeWord` says how far the word at the front of a text goes. Between two digits of a number one underscore may
stand.
-/

namespace RectLayout.Toml

/-! ## Digits -/

/-- Digits with single underscores between them: the digits. -/
def ungroup? (isDigit : Char → Bool) : List Char → Option (List Char)
  | [] => none
  | [d] => if isDigit d then some [d] else none
  | d :: '_' :: r => if isDigit d then (d :: ·) <$> ungroup? isDigit r else none
  | d :: r => if isDigit d then (d :: ·) <$> ungroup? isDigit r else none

/-- The digits of a whole number in base ten: no zero comes before another digit. -/
def whole? (cs : List Char) : Option (List Char) := do
  let ds ← ungroup? Char.isDigit cs
  if ds.head? = some '0' ∧ ds ≠ ['0'] then none else some ds

/-- Whether the sign at the front of a text is a minus, and what follows the sign. -/
def splitSign : List Char → Bool × List Char
  | '-' :: r => (true, r)
  | '+' :: r => (false, r)
  | r => (false, r)

/-! ## Integers -/

/-- An integer of 64 bits. -/
def int64? (n : Int) : Option Int := if Scalar.minInt64 ≤ n ∧ n ≤ Scalar.maxInt64 then some n else none

/-- The value of a digit of base sixteen or less. -/
def digitValue (c : Char) : Nat :=
  if c.isDigit then c.toNat - '0'.toNat else c.toLower.toNat - 'a'.toNat + 10

/-- The number that grouped digits of a base write. -/
def inBase? (base : Nat) (cs : List Char) : Option Nat := do
  let ds ← ungroup? (fun c => (c.isDigit || ('a' ≤ c.toLower && c.toLower ≤ 'f')) && digitValue c < base) cs
  return ds.foldl (fun n c => base * n + digitValue c) 0

/-- An integer: in base sixteen, eight or two without a sign, or in base ten. -/
def integer? : List Char → Option Int
  | '0' :: 'x' :: r => do int64? (← inBase? 16 r)
  | '0' :: 'o' :: r => do int64? (← inBase? 8 r)
  | '0' :: 'b' :: r => do int64? (← inBase? 2 r)
  | cs => do
    let (negative, r) := splitSign cs
    let n : Int := Decimal.ofDigits (← whole? r)
    int64? (if negative then -n else n)

/-! ## Floats -/

/-- The power of ten after the digits of a float: nothing, or a letter `e` with an exponent. -/
def exponent? : List Char → Option Int
  | [] => some 0
  | e :: r => do
    let (negative, ds) := splitSign r
    let n : Int := Decimal.ofDigits (← ungroup? Char.isDigit ds)
    if e = 'e' ∨ e = 'E' then some (if negative then -n else n) else none

/-- The decimal of a float without its sign: a whole number with a fraction, an exponent, or both. -/
def decimal? (cs : List Char) : Option Decimal := do
  let isMark (c : Char) := c == '.' || c == 'e' || c == 'E'
  let isPower (c : Char) := c == 'e' || c == 'E'
  let ds ← whole? (cs.takeWhile (!isMark ·))
  match cs.dropWhile (!isMark ·) with
  | [] => none
  | '.' :: r =>
    let fs ← ungroup? Char.isDigit (r.takeWhile (!isPower ·))
    return ⟨Decimal.ofDigits (ds ++ fs), (← exponent? (r.dropWhile (!isPower ·))) - fs.length⟩
  | r => return ⟨Decimal.ofDigits ds, ← exponent? r⟩

/-- The double of a float: the nearest one, an infinity or no number. A float that is too great for a double is
refused, one that is too small is negative infinity. -/
def float? (cs : List Char) : Option Float :=
  let (negative, r) := splitSign cs
  let signed (x : Float) := if negative then -x else x
  if r = ['i', 'n', 'f'] then some (signed (1.0 / 0.0))
  else if r = ['n', 'a', 'n'] then some (0.0 / 0.0)
  else do
    let x := signed (Double.ofDecimal (← decimal? r))
    if x == 1.0 / 0.0 then none else some x

/-! ## Dates and times -/

/-- Two digits that write a number between two bounds. -/
def twoDigits (lo hi : Nat) (a b : Char) : Bool :=
  a.isDigit && b.isDigit && lo ≤ Decimal.ofDigits [a, b] && Decimal.ofDigits [a, b] ≤ hi

/-- The number of days of a month. -/
def daysOf (year month : Nat) : Nat :=
  if month = 2 then if year % 4 = 0 ∧ (year % 100 ≠ 0 ∨ year % 400 = 0) then 29 else 28
  else if month = 4 ∨ month = 6 ∨ month = 9 ∨ month = 11 then 30
  else 31

def isDate : List Char → Bool
  | [a, b, c, d, '-', e, f, '-', g, h] =>
    [a, b, c, d].all Char.isDigit && twoDigits 1 12 e f &&
      twoDigits 1 (daysOf (Decimal.ofDigits [a, b, c, d]) (Decimal.ofDigits [e, f])) g h
  | _ => false

/-- The difference to universal time: none, `Z`, or hours and minutes with a sign. -/
def isOffset : List Char → Bool
  | [] => true
  | ['Z'] => true
  | ['z'] => true
  | [s, a, b, ':', c, d] => (s == '+' || s == '-') && twoDigits 0 23 a b && twoDigits 0 59 c d
  | _ => false

/-- A time of day with seconds, which may have a fraction, and with an offset that `isEnd` admits. -/
def isTime (isEnd : List Char → Bool) : List Char → Bool
  | a :: b :: ':' :: c :: d :: ':' :: e :: f :: r =>
    twoDigits 0 23 a b && twoDigits 0 59 c d && twoDigits 0 60 e f &&
      match r with
      | '.' :: g :: r => g.isDigit && isEnd (r.dropWhile Char.isDigit)
      | r => isEnd r
  | _ => false

/-- A date, a time of day, or a date with a time of day and maybe an offset after it. -/
def isDateTime (cs : List Char) : Bool :=
  isTime List.isEmpty cs || isDate cs ||
    (isDate (cs.take 10) &&
      match cs.drop 10 with
      | t :: r => (t == 'T' || t == 't' || t == ' ') && isTime isOffset r
      | [] => false)

/-! ## Words -/

def isWordChar (c : Char) : Bool := c.isAlphanum || c == '+' || c == '-' || c == '_' || c == '.' || c == ':'

/-- The word at the front of a text, and the rest. A date and a time may have one space between them. -/
def takeWord (cs : List Char) : List Char × List Char :=
  let word := cs.takeWhile isWordChar
  match cs.dropWhile isWordChar with
  | ' ' :: d :: r =>
    if isDate word && d.isDigit then (word ++ ' ' :: (d :: r).takeWhile isWordChar, (d :: r).dropWhile isWordChar)
    else (word, ' ' :: d :: r)
  | r => (word, r)

/-- The value of a word. -/
def Value.ofWord? (cs : List Char) : Option Value :=
  if cs = ['t', 'r', 'u', 'e'] then some (.boolean true)
  else if cs = ['f', 'a', 'l', 's', 'e'] then some (.boolean false)
  else if isDateTime cs then some .dateTime
  else (.float <$> float? cs) <|> (.integer <$> integer? cs)

end RectLayout.Toml
