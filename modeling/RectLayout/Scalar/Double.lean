import RectLayout.Decimal.Double
import RectLayout.Scalar

/-!
# Doubles as scalars

The arithmetic of binary64. A value that is no number loses against every number in `min` and `max`, and ranks above
all of them.
-/

namespace RectLayout

instance minFloat : Min Float where
  min x y := if x.isNaN || y < x then y else x

instance maxFloat : Max Float where
  max x y := if x.isNaN || x < y then y else x

instance zeroFloat : Zero Float := ⟨0.0⟩

instance oneFloat : One Float := ⟨1.0⟩

instance scalarFloat : Scalar Float where
  decidableLT := Float.decLt
  decidableLE := Float.decLe
  abs := Float.abs
  round := Float.round
  floor := Float.floor
  ceil := Float.ceil
  ofRat := Double.nearest
  toRat? := Double.toRat?
  ofDecimal := Double.ofDecimal
  toInt64 x := x.toInt64.toInt
  ranksBelow x y := y.isNaN || x ≤ y
  text := Double.text
  slack := 1 / 100000000

end RectLayout
