/-!
# Affine forms

A form is an affine function of numbered variables over the rationals, with its terms in increasing order of the
variables and none of them zero.

* `Form.addScaled`: a form plus a multiple of another;
* `Form.substitute`: a variable replaced by a form;
* `Form.solveFor`: the variable that a form equation determines.
-/

namespace RectLayout.LinearProgram

structure Form where
  /-- Variables with their coefficients, in increasing order of the variables. -/
  terms : List (Nat × Rat)
  constant : Rat
  deriving DecidableEq, Repr, Inhabited

/-- The terms of `a` plus `c` times the terms of `b`. -/
def addTerms (c : Rat) : List (Nat × Rat) → List (Nat × Rat) → List (Nat × Rat)
  | [], b => b.map fun t => (t.1, c * t.2)
  | a, [] => a
  | (i, p) :: a, (k, q) :: b =>
    if i < k then (i, p) :: addTerms c a ((k, q) :: b)
    else if k < i then (k, c * q) :: addTerms c ((i, p) :: a) b
    else
      let s := p + c * q
      if s = 0 then addTerms c a b else (i, s) :: addTerms c a b
termination_by a b => a.length + b.length

namespace Form

/-- The form that is constant. -/
def const (c : Rat) : Form := ⟨[], c⟩

/-- The form `c * v`. -/
def single (v : Nat) (c : Rat) : Form := ⟨if c = 0 then [] else [(v, c)], 0⟩

/-- The form `a + c * b`. -/
def addScaled (a : Form) (c : Rat) (b : Form) : Form :=
  if c = 0 then a else ⟨addTerms c a.terms b.terms, a.constant + c * b.constant⟩

/-- The form `c * a`. -/
def scale (c : Rat) (a : Form) : Form := (const 0).addScaled c a

/-- The coefficient of a variable, zero if it does not occur. -/
def coefficient (f : Form) (v : Nat) : Rat := (f.terms.lookup v).getD 0

/-- The value of a form at a point. -/
def eval (f : Form) (x : Nat → Rat) : Rat := f.terms.foldr (fun t s => t.2 * x t.1 + s) f.constant

/-- The form without its term in `v`. -/
def erase (f : Form) (v : Nat) : Form := { f with terms := f.terms.filter fun t => t.1 != v }

/-- The form with `v` replaced by the form `g`. -/
def substitute (f : Form) (v : Nat) (g : Form) : Form :=
  match f.terms.lookup v with
  | none => f
  | some c => (f.erase v).addScaled c g

/-- The form that `v` equals if `w` equals `f`, where `v` occurs in `f`. -/
def solveFor (f : Form) (v w : Nat) : Form :=
  let c := f.coefficient v
  (single w (1 / c)).addScaled (-1 / c) (f.erase v)

end Form

end RectLayout.LinearProgram
