/-!
# Decimals

A `Decimal` is a natural number of units of a power of ten. `Decimal.toRat` is its value; `Decimal.positional` writes
it without an exponent, with as many zeros as its place needs.
-/

namespace RectLayout

/-- The number `digits * 10 ^ exponent`. -/
structure Decimal where
  digits : Nat
  exponent : Int
  deriving DecidableEq, Repr, Inhabited

namespace Decimal

/-- A power of ten. -/
def pow10 (k : Nat) : Nat := Nat.pow 10 k

/-- The value of a decimal. -/
def toRat (d : Decimal) : Rat :=
  if 0 ≤ d.exponent then ((d.digits * pow10 d.exponent.toNat : Nat) : Rat)
  else mkRat d.digits (pow10 (-d.exponent).toNat)

/-- The number of digits of `n`, at least one. -/
def width (n : Nat) : Nat := (Nat.toDigits 10 n).length

/-- The digits of a decimal in their places: zeros after them up to the point, or a point between them, with one
zero before a point that would come first. -/
def positional (d : Decimal) : String :=
  let ds := Nat.toDigits 10 d.digits
  if 0 ≤ d.exponent then
    if d.digits = 0 then "0" else String.ofList (ds ++ List.replicate d.exponent.toNat '0')
  else
    let places := (-d.exponent).toNat
    let padded := List.replicate (places + 1 - ds.length) '0' ++ ds
    let whole := padded.length - places
    String.ofList (padded.take whole ++ '.' :: padded.drop whole)

/-- The number that a list of decimal digits writes. -/
def ofDigits (ds : List Char) : Nat := ds.foldl (fun n c => 10 * n + (c.toNat - '0'.toNat)) 0

end Decimal

end RectLayout
