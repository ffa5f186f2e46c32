import RectLayout.Decimal.Basic

/-!
# Doubles and decimals

A finite binary64 number is `m * 2 ^ q` with a sign (`unpack`). `nearest` rounds a quotient to the nearest such
number, a tie to the even significand; `shortest` goes back to decimals: of the decimals that round to a given
number, one with the fewest digits, and of those the nearest to it (the larger one of two equally near).
-/

namespace RectLayout.Double

/-- A power of two. -/
def pow2 (k : Nat) : Nat := Nat.pow 2 k

/-- What a double stands for. -/
inductive Value where
  | nan
  | infinite (negative : Bool)
  /-- The number `m * 2 ^ q`, or its negative. -/
  | finite (negative : Bool) (m : Nat) (q : Int)
  deriving DecidableEq, Repr

/-- The value of a double, read off its bits: a sign, eleven bits of exponent, fifty-two of significand. -/
def unpack (x : Float) : Value :=
  let bits := x.toBits.toNat
  let negative := bits / pow2 63 = 1
  let e : Nat := bits / pow2 52 % pow2 11
  let f : Nat := bits % pow2 52
  if e = 2047 then
    if f = 0 then .infinite negative else .nan
  else if e = 0 then .finite negative f (-1074)
  else .finite negative (f + pow2 52) (e - 1075)

/-! ## From quotients to doubles -/

/-- The quotient rounded to a whole number, a tie to the even one. -/
def roundEven (num den : Nat) : Nat :=
  let n := num / den
  let r := num % den
  if 2 * r < den || (2 * r == den && n % 2 == 0) then n else n + 1

/-- The quotient `num / (den * 2 ^ q)` as a pair. -/
def scaleDown (num den : Nat) (q : Int) : Nat × Nat := (num * pow2 (-q).toNat, den * pow2 q.toNat)

/-- The exponent at which the quotient has a significand of fifty-three bits, or the least one there is. -/
def exponentOf (num den : Nat) : Int :=
  let q := (num.log2 : Int) - den.log2 - 53
  let (n, d) := scaleDown num den q
  max (-1074) (if n / d < pow2 53 then q else q + 1)

/-- The bits of the double nearest to a quotient; past the greatest finite double they are those of infinity. -/
def nearestBits (num den : Nat) : Nat :=
  let q := exponentOf num den
  let (n, d) := scaleDown num den q
  if num = 0 then 0 else min ((q + 1074).toNat * pow2 52 + roundEven n d) (2047 * pow2 52)

/-- The double nearest to a rational number. -/
def nearest (r : Rat) : Float :=
  let bits := nearestBits r.num.natAbs r.den
  Float.ofBits (UInt64.ofNat (if r.num < 0 then bits + pow2 63 else bits))

/-- The double nearest to a decimal. Past the range of doubles the power of ten is not formed. -/
def ofDecimal (d : Decimal) : Float :=
  let place := d.exponent + Decimal.width d.digits
  if d.digits = 0 ∨ place < -330 then 0
  else if 310 < place then Float.ofBits (UInt64.ofNat (2047 * pow2 52))
  else nearest d.toRat

/-! ## From doubles to decimals -/

/-- The interval of the reals that round to `m * 2 ^ q`, in units of `2 ^ (q - 2)`: its ends, and whether they
belong to it. Below a power of two the doubles are twice as dense. -/
def rounding (m : Nat) (q : Int) : Nat × Nat × Bool :=
  (if m = pow2 52 ∧ -1074 < q then 4 * m - 1 else 4 * m - 2, 4 * m + 2, m % 2 = 0)

/-- The multiple of `10 ^ k` that rounds to `m * 2 ^ q` and is nearest to it, if there is one. -/
def onGrid? (m : Nat) (q k : Int) : Option Decimal :=
  let (lo, hi, closed) := rounding m q
  let n := pow2 (q - 2).toNat * Decimal.pow10 (-k).toNat
  let d := pow2 (2 - q).toNat * Decimal.pow10 k.toNat
  let inside (c : Nat) : Bool :=
    if closed then lo * n ≤ c * d && c * d ≤ hi * n else lo * n < c * d && c * d < hi * n
  let below := 4 * m * n / d
  match inside below, inside (below + 1) with
  | false, false => none
  | true, false => some ⟨below, k⟩
  | false, true => some ⟨below + 1, k⟩
  | true, true => some ⟨if 2 * (4 * m * n) < (2 * below + 1) * d then below else below + 1, k⟩

/-- An exponent `k` such that `10 ^ k` is above `m * 2 ^ q`. -/
def placeAbove (m : Nat) (q : Int) : Int :=
  let n := m * pow2 q.toNat
  let d := pow2 (-q).toNat
  if d ≤ n then Decimal.width (n / d) else 1 - (Decimal.width (d / n) : Int)

/-- A decimal with the fewest digits among those that round to `m * 2 ^ q`: the coarsest grid with a hit. Seventeen
digits are always enough, so the search passes at most twenty grids. -/
def shortest (m : Nat) (q : Int) : Decimal :=
  if m = 0 then ⟨0, 0⟩
  else ((List.range 20).findSome? fun i : Nat => onGrid? m q (placeAbove m q - i)).getD ⟨0, 0⟩

/-- The shortest decimal of a finite double, as a rational number. -/
def toRat? (x : Float) : Option Rat :=
  match unpack x with
  | .finite negative m q => let r := (shortest m q).toRat; some (if negative then -r else r)
  | _ => none

/-- The text of a double: its shortest decimal in positional form. -/
def text (x : Float) : String :=
  match unpack x with
  | .nan => "NaN"
  | .infinite negative => if negative then "-inf" else "inf"
  | .finite negative m q => (if negative then "-" else "") ++ (shortest m q).positional

end RectLayout.Double
