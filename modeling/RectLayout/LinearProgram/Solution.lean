import RectLayout.LinearProgram.Dictionary
import RectLayout.LinearProgram.Elimination

/-!
# Solutions of demands

`solveDemands` meets a list of demands one after another, or finds the first that cannot be met together with those
before it. Neither answer rests on the search: a point is put into every demand, and a conflict is checked. Should the
search have failed, elimination decides instead.
-/

namespace RectLayout.LinearProgram

/-- Demands that are met, as they were met, with the dictionary that meets them. -/
structure Met where
  demands : Array Demand
  dictionary : Dictionary

/-- The end of a search. -/
inductive Search where
  | met (m : Met)
  | conflict (m : Met) (c : Conflict)
  | exhausted

/-- Adds the demands to those that are met. The variable of demand `i` has the number `n + i`. -/
def meet (n : Nat) (slack : Rat) (m : Met) : List Demand → Search
  | [] => .met m
  | demand :: rest =>
    match m.dictionary.add slack demand with
    | .met d shift =>
      let form := { demand.form with constant := demand.form.constant + shift }
      meet n slack ⟨m.demands.push { demand with form }, d⟩ rest
    | .contradicted sign multiples =>
      .conflict m ⟨m.demands.size, sign, multiples.map fun t => (t.1 - n, t.2)⟩
    | .exhausted => .exhausted

/-- A demand is met up to the slack by one with the same terms and a constant within the slack. -/
def Demand.isWithin (slack : Rat) (met demand : Demand) : Bool :=
  met.kind == demand.kind && met.form.terms == demand.form.terms &&
    decide (Rat.abs (met.form.constant - demand.form.constant) ≤ slack)

/-- The demands as they were met are the given ones up to the slack, and they hold at the point of the dictionary. -/
def Met.isValid (m : Met) (slack : Rat) (demands : List Demand) : Bool :=
  m.demands.size == demands.length &&
  ((m.demands.toList.zip demands).all fun (met, demand) => met.isWithin slack demand) &&
  m.demands.all fun demand => demand.holds m.dictionary.value

/-- Demands that can be met together. -/
structure Feasible where
  demands : List Demand
  /-- A point that meets them. -/
  point : Nat → Rat

/-- Meets all demands by elimination. -/
def eliminateDemands (n : Nat) (demands : List Demand) : Except Nat Feasible :=
  match Elimination.decideFrom n [] (fun _ => 0) demands with
  | .ok x => .ok ⟨demands, x⟩
  | .error (k, _) => .error k

/-- Meets all demands, or says how many can be met before the first that cannot. -/
def solveDemands (n : Nat) (slack : Rat) (demands : List Demand) : Except Nat Feasible :=
  match meet n slack ⟨#[], .empty n⟩ demands with
  | .met m =>
    if m.isValid slack demands then .ok ⟨m.demands.toList, m.dictionary.value⟩
    else eliminateDemands n demands
  | .conflict m c =>
    if m.isValid slack (demands.take m.demands.size) && c.isValid (m.demands ++ (demands.drop m.demands.size).toArray)
    then .error c.index
    else eliminateDemands n demands
  | .exhausted => eliminateDemands n demands

end RectLayout.LinearProgram
