import RectLayout.Scalar.Double
import RectLayout.Toml.Value

/-!
# From values to data

What the program reads from a value. A record takes its fields from a table by name, where it ignores other names, or
from an array by place, where it ignores what comes after the last field. An integer serves as a number.
-/

namespace RectLayout.Toml

/-- The fields that a record finds in a value, given their names in order. A date has a place for fields and holds
none. -/
def Value.fields? (names : List String) : Value → Option (String → Option Value)
  | .table _ entries => some (entries.lookup ·)
  | .array items => some ((names.zip items).lookup ·)
  | .tables items => some ((names.zip items).lookup ·)
  | .dateTime => some fun _ => none
  | _ => none

namespace Value

def string? : Value → Option String
  | .string s => some s
  | _ => none

def boolean? : Value → Option Bool
  | .boolean b => some b
  | _ => none

def number? : Value → Option Float
  | .float x => some x
  | .integer n => some (Scalar.ofInt n)
  | _ => none

/-- An integer between two bounds. -/
def integerIn? (lo hi : Int) : Value → Option Int
  | .integer n => if lo ≤ n ∧ n ≤ hi then some n else none
  | _ => none

/-- An integer of 64 bits. -/
def int64? : Value → Option Int := integerIn? Scalar.minInt64 Scalar.maxInt64

/-- An integer of 32 bits. -/
def int32? : Value → Option Int := integerIn? (-2147483648) 2147483647

/-- A number of things. -/
def count? (v : Value) : Option Nat := Int.toNat <$> integerIn? 0 Scalar.maxInt64 v

def items? : Value → Option (List Value)
  | .array items => some items
  | .tables items => some items
  | _ => none

/-- The items of an array, each read as `item` says. -/
def list? {β : Type} (item : Value → Option β) (v : Value) : Option (List β) := do (← v.items?).mapM item

end Value

/-- A field that has to be there. -/
def required {β : Type} (fields : String → Option Value) (name : String) (read : Value → Option β) : Option β :=
  (fields name).bind read

/-- A field that may be missing. -/
def optional {β : Type} (fields : String → Option Value) (name : String) (read : Value → Option β) :
    Option (Option β) :=
  match fields name with
  | none => some none
  | some v => some <$> read v

/-- A field with a value for the case that it is missing. -/
def defaulted {β : Type} (fields : String → Option Value) (name : String) (read : Value → Option β) (value : β) :
    Option β :=
  (·.getD value) <$> optional fields name read

end RectLayout.Toml
