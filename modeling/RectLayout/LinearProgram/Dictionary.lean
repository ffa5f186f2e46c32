import RectLayout.LinearProgram.Demand

/-!
# Dictionaries

A dictionary expresses some variables, the basic ones, as forms in the others. At its point the others are zero, so
that a basic variable has the constant of its form as value. Demands are added one after another, each with a variable
of its own for the value of its form; a pivot exchanges a basic variable for another one.

`Dictionary.add` adds one more demand, or finds the conflict in which it is with the earlier ones.
The entering and the leaving variable of a pivot are the first ones that qualify. The number of pivots is bounded by a
budget.
-/

namespace RectLayout.LinearProgram

/-- The values that a variable may have. -/
inductive Bound where
  | free
  | nonNegative
  | zero
  deriving DecidableEq, Repr

structure Dictionary where
  /-- The bounds of all variables. -/
  bounds : Array Bound
  /-- The basic variables with their forms. -/
  rows : List (Nat × Form)
  deriving Repr

namespace Dictionary

/-- The dictionary with `n` free variables and no demands. -/
def empty (n : Nat) : Dictionary := ⟨Array.replicate n .free, []⟩

def bound (d : Dictionary) (v : Nat) : Bound := d.bounds.getD v .free

/-- The value of a variable at the dictionary's point. -/
def value (d : Dictionary) (v : Nat) : Rat := ((d.rows.lookup v).map Form.constant).getD 0

/-- The form of a variable in those that are not basic. -/
def formOf (d : Dictionary) (v : Nat) : Form := (d.rows.lookup v).getD (.single v 1)

/-- A form with its basic variables replaced by their forms. -/
def express (d : Dictionary) (f : Form) : Form :=
  f.terms.foldl (fun e t => e.addScaled t.2 (d.formOf t.1)) (.const f.constant)

/-- The dictionary with one more variable, and that variable. -/
def fresh (d : Dictionary) (b : Bound) : Nat × Dictionary := (d.bounds.size, { d with bounds := d.bounds.push b })

/-- The dictionary with one more basic variable. -/
def insert (d : Dictionary) (v : Nat) (f : Form) : Dictionary := { d with rows := (v, f) :: d.rows }

/-- The dictionary in which `enter` is basic instead of `leave`, whose form is `f`. -/
def exchange (d : Dictionary) (enter leave : Nat) (f : Form) : Dictionary :=
  let g := f.solveFor enter leave
  { d with rows := (enter, g) :: (d.rows.filter fun r => r.1 != leave).map fun r => (r.1, r.2.substitute enter g) }

/-- The first variable of a form that may have any value. -/
def freeIn? (d : Dictionary) (f : Form) : Option Nat := (f.terms.find? fun t => d.bound t.1 == .free).map Prod.fst

/-- The first variable of a form that may grow and raises the form. -/
def raising? (d : Dictionary) (f : Form) : Option (Nat × Rat) :=
  f.terms.find? fun t => d.bound t.1 == .nonNegative && decide (0 < t.2)

/-- The first to reach zero when `enter` grows, of the best basic variable so far and that of one more row, with its form
and the growth at which it does. -/
def nearer (d : Dictionary) (enter : Nat) (best : Option (Nat × Form × Rat)) (row : Nat × Form) :
    Option (Nat × Form × Rat) :=
  let (v, f) := row
  let c := f.coefficient enter
  if d.bound v == .nonNegative && decide (c < 0) then
    let growth := f.constant / -c
    match best with
    | none => some (v, f, growth)
    | some (w, _, least) =>
      if growth < least || (growth == least && v < w) then some (v, f, growth) else best
  else best

/-- The basic variable that reaches zero first when `enter` grows, with its form and the growth at which it does. -/
def leaving? (d : Dictionary) (enter : Nat) : Option (Nat × Form × Rat) := d.rows.foldl (d.nearer enter) none

/-- The pivots after which a search gives up. -/
def budget : Nat := 20000

/-! ## Demands -/

/-- The end of the attempt to raise a negative form. -/
inductive Climb where
  /-- The form, with the dictionary at this end, is zero once the variable has grown enough. -/
  | reached (d : Dictionary) (e : Form) (v : Nat)
  /-- No variable raises the form. -/
  | stuck (d : Dictionary) (e : Form)
  | exhausted

/-- Raises a negative form as long as it stays negative. -/
def climb : Nat → Dictionary → Form → Climb
  | 0, _, _ => .exhausted
  | fuel + 1, d, e =>
    match d.raising? e with
    | none => .stuck d e
    | some (v, c) =>
      match d.leaving? v with
      | some (w, f, growth) =>
        if growth < -e.constant / c then climb fuel (d.exchange v w f) (e.substitute v (f.solveFor v w))
        else .reached d e v
      | none => .reached d e v

/-- The outcome of one more demand. -/
inductive Added where
  /-- The demand is met, its form shifted by an amount below the slack. -/
  | met (d : Dictionary) (shift : Rat)
  /-- The form, taken with a sign, is negative whatever the multiples of earlier slack variables are. -/
  | contradicted (sign : Rat) (multiples : List (Nat × Rat))
  | exhausted

/-- The values of the variable that is introduced for the form of a demand. -/
def boundOf : RowKind → Bound
  | .equality => .zero
  | .inequality => .nonNegative

/-- The sign that makes the constant of a form negative if a demand of the kind is not met by it. -/
def signOf (kind : RowKind) (constant : Rat) : Rat :=
  match kind with
  | .equality => if 0 < constant then -1 else 1
  | .inequality => 1

/-- The dictionary with the variable `v`, newly introduced for the form `e`, exchanged for `w`. -/
def insertOut (d : Dictionary) (v w : Nat) (e : Form) : Dictionary := (d.insert v e).exchange w v e

/-- The dictionary with the variable `v`, newly introduced for the form `e`, where `e` has a value at the dictionary's
point that `v` may have. A variable that stays at zero is not basic. If nothing can be basic instead, then the form is
zero wherever such variables are. -/
def place (d : Dictionary) (v : Nat) (e : Form) : Dictionary :=
  if d.bound v = .zero then
    match e.terms.find? fun t => d.bound t.1 == .nonNegative with
    | some (w, _) => d.insertOut v w e
    | none => d
  else d.insert v e

/-- What comes of a demand whose form, with a sign, was raised: the new variable `v` gets the value of the form. A form
that is stuck below zero by less than the slack counts as zero. -/
def Climb.added (slack sign : Rat) (v : Nat) : Climb → Added
  | .reached d e w => .met (d.insertOut v w (e.scale sign)) 0
  | .stuck d e =>
    if -e.constant < slack then .met (d.place v ({ e with constant := 0 }.scale sign)) (sign * -e.constant)
    else .contradicted sign e.terms
  | .exhausted => .exhausted

/-- The dictionary in which the new variable `v` has the value of a form `e` without basic variables, if it may have such
a value. A negative form is raised, with the sign that it needs if it has to be zero. -/
def addForm (d : Dictionary) (slack : Rat) (kind : RowKind) (v : Nat) (e : Form) : Added :=
  match d.freeIn? e with
  | some w => .met (d.insertOut v w e) 0
  | none =>
    let sign := signOf kind e.constant
    if 0 ≤ sign * e.constant then .met (d.place v e) 0
    else (climb budget d (e.scale sign)).added slack sign v

/-- One more demand, with a variable for the value of its form. -/
def add (d : Dictionary) (slack : Rat) (demand : Demand) : Added :=
  let (v, d) := d.fresh (boundOf demand.kind)
  d.addForm slack demand.kind v (d.express demand.form)

end Dictionary

end RectLayout.LinearProgram
