import RectLayout.Decimal.Basic

/-!
# Scalars

Coordinates, coefficients and tolerances are numbers of one type. `Scalar` lists what a layout needs of that type, and
every rule of the library is written over it once. The rationals (here) are the exact scalars of which the theory
speaks; the doubles (`RectLayout.Scalar.Double`) are the scalars of the command line.
-/

namespace RectLayout

/-- The arithmetic of a layout. -/
class Scalar (α : Type) extends Add α, Sub α, Mul α, Div α, Neg α, Zero α, One α, LT α, LE α, BEq α, Min α, Max α where
  decidableLT : DecidableLT α
  decidableLE : DecidableLE α
  abs : α → α
  /-- The nearest whole number, a half going away from zero. -/
  round : α → α
  floor : α → α
  ceil : α → α
  /-- The scalar nearest to a rational number. -/
  ofRat : Rat → α
  /-- The number that a scalar stands for, if it stands for one. -/
  toRat? : α → Option Rat
  /-- The scalar that a decimal literal denotes. -/
  ofDecimal : Decimal → α
  /-- The whole part, clamped to the integers of 64 bits. -/
  toInt64 : α → Int
  /-- A total order that agrees with `≤` on numbers. -/
  ranksBelow : α → α → Bool
  /-- How a scalar is written in messages. -/
  text : α → String
  /-- The amount up to which the rows of a linear program may contradict each other: what rounding can account for. -/
  slack : Rat

namespace Scalar

variable {α : Type} [Scalar α]

instance : DecidableLT α := decidableLT

instance : DecidableLE α := decidableLE

/-- The scalar of an integer. -/
def ofInt (n : Int) : α := ofRat (n : Rat)

/-- The scalar of a natural number. -/
def ofNat (n : Nat) : α := ofRat (n : Rat)

/-- The sum of a list, from the left. It starts with minus zero, which changes no number that it is added to, not even
the sign of a zero. -/
def sum (xs : List α) : α := xs.foldl (· + ·) (-0)

/-- The least integer of 64 bits. -/
def minInt64 : Int := -9223372036854775808

/-- The greatest integer of 64 bits. -/
def maxInt64 : Int := 9223372036854775807

/-- The nearest whole number, a half going away from zero. -/
def roundRat (x : Rat) : Int := if 0 ≤ x then (x + 1 / 2).floor else (x - 1 / 2).ceil

instance scalarRat : Scalar Rat where
  zero := 0
  one := 1
  decidableLT := inferInstance
  decidableLE := inferInstance
  min x y := if x ≤ y then x else y
  max x y := if x ≤ y then y else x
  abs := Rat.abs
  round x := (roundRat x : Rat)
  floor x := (x.floor : Rat)
  ceil x := (x.ceil : Rat)
  ofRat x := x
  toRat? := some
  ofDecimal := Decimal.toRat
  toInt64 x := max minInt64 (min maxInt64 (x.num.tdiv x.den))
  ranksBelow x y := x ≤ y
  text x := if x.den = 1 then s!"{x.num}" else s!"{x.num}/{x.den}"
  slack := 0

end Scalar

end RectLayout
