import RectLayout.LinearProgram.Demand

/-!
# Elimination of variables

A system of forms that must not be negative loses a variable when every lower bound on it is set against every upper
bound. `solve?` eliminates all variables and then gives them values in reverse order. It always decides, but the
number of forms can grow fast; `Dictionary` is the way to solve larger systems.
-/

namespace RectLayout.LinearProgram.Elimination

/-- The positive combination of a lower and an upper bound on `v` in which `v` does not occur. -/
def combine (v : Nat) (lower upper : Form) : Form :=
  ((lower.scale (-(upper.coefficient v))).addScaled (lower.coefficient v) upper).erase v

/-- The forms in which `v` has a positive coefficient: they bound it from below. -/
def lowerBounds (v : Nat) (fs : List Form) : List Form := fs.filter fun f => 0 < f.coefficient v

/-- The forms in which `v` has a negative coefficient: they bound it from above. -/
def upperBounds (v : Nat) (fs : List Form) : List Form := fs.filter fun f => f.coefficient v < 0

/-- The system without `v`. -/
def eliminate (v : Nat) (fs : List Form) : List Form :=
  (fs.filter fun f => f.coefficient v == 0) ++
    (lowerBounds v fs).flatMap fun l => (upperBounds v fs).map fun u => combine v l u

/-- The value of `v` at which a form that bounds it is zero. -/
def bound (v : Nat) (x : Nat → Rat) (f : Form) : Rat := -((f.erase v).eval x) / f.coefficient v

/-- A value for `v` within the bounds that the other variables leave: the greatest lower bound, or else the least
upper bound. -/
def choose (v : Nat) (fs : List Form) (x : Nat → Rat) : Rat :=
  match (lowerBounds v fs).map (bound v x) with
  | b :: bs => bs.foldl (fun x y => if x ≤ y then y else x) b
  | [] =>
    match (upperBounds v fs).map (bound v x) with
    | b :: bs => bs.foldl (fun x y => if x ≤ y then x else y) b
    | [] => 0

/-- A point at which none of the forms, which have variables below `n` only, is negative. -/
def solve? : Nat → List Form → Option (Nat → Rat)
  | 0, fs => if fs.all fun f => 0 ≤ f.constant then some fun _ => 0 else none
  | n + 1, fs => (solve? n (eliminate n fs)).map fun x i => if i = n then choose n fs x else x i

/-- The forms that are not negative exactly where a demand is met. -/
def forms (d : Demand) : List Form :=
  match d.kind with
  | .equality => [d.form, d.form.scale (-1)]
  | .inequality => [d.form]

/-- The number of demands up to the first that cannot be met together with those before it, and a point that meets
all demands before it; without such a demand, a point that meets them all. -/
def decideFrom (n : Nat) (met : List Demand) (x : Nat → Rat) : List Demand → Except (Nat × (Nat → Rat)) (Nat → Rat)
  | [] => .ok x
  | d :: ds =>
    match solve? n ((met ++ [d]).flatMap forms) with
    | some y => decideFrom n (met ++ [d]) y ds
    | none => .error (met.length, x)

end RectLayout.LinearProgram.Elimination
