import RectLayout.Clause.Token
import RectLayout.Text.Blank

/-!
# Parsing clauses

A clause is two sides around a comparison symbol. A side is a sum: `[sign] term (sign term)*`, where a term is a name,
a number, or both with an optional star between them. Names are bound to coordinates only after the whole side has
been read, so an error in the shape of a side comes before an unknown name in it.

* `Clause.parse`: one clause;
* `Clause.parseAll`: a list of clauses with keywords, separated by commas.
-/

namespace RectLayout

/-! ## Sums of names and numbers -/

/-- A term before its name is bound to a coordinate. -/
structure RawTerm (α : Type) where
  coefficient : α
  name : Option (Located String)
  deriving DecidableEq, Repr

/-- What a reader of a side has just read. -/
inductive Progress where
  | nothing
  | sign
  | number
  | star
  /-- A term that ends with its name. -/
  | named
  deriving DecidableEq, Repr

/-- What may follow, as messages list it. After a sign or a star they list nothing. -/
def Progress.expected : Progress → List String
  | nothing => ["'+'", "'-'"]
  | sign | star => []
  | number => ["'*'", "'+'", "'-'", "end of expression"]
  | named => ["'+'", "'-'", "end of expression"]

/-- The place at which a side stops being a sum: what was read before it, and what follows. -/
structure Unexpected (α : Type) where
  after : Progress
  rest : List (Located (Token α))

namespace RawTerm

variable {α : Type} [Scalar α]

mutual

/-- The terms of a sum, the first of which has the sign `sign` and follows `seen`. -/
def readTerm (sign : α) (seen : Progress) : List (Located (Token α)) → Except (Unexpected α) (List (RawTerm α))
  | ⟨.name s, span⟩ :: r => (⟨1 * sign, some ⟨s, span⟩⟩ :: ·) <$> readMore .named r
  | ⟨.number x, _⟩ :: ⟨.name s, span⟩ :: r => (⟨x * sign, some ⟨s, span⟩⟩ :: ·) <$> readMore .named r
  | ⟨.number x, _⟩ :: ⟨.star, _⟩ :: ⟨.name s, span⟩ :: r => (⟨x * sign, some ⟨s, span⟩⟩ :: ·) <$> readMore .named r
  | ⟨.number _, _⟩ :: ⟨.star, _⟩ :: r => .error ⟨.star, r⟩
  | ⟨.number x, _⟩ :: r => (⟨x * sign, none⟩ :: ·) <$> readMore .number r
  | r => .error ⟨seen, r⟩

/-- The terms after a complete one. -/
def readMore (seen : Progress) : List (Located (Token α)) → Except (Unexpected α) (List (RawTerm α))
  | [] => .ok []
  | ⟨.plus, _⟩ :: r => readTerm 1 .sign r
  | ⟨.minus, _⟩ :: r => readTerm (-1) .sign r
  | r => .error ⟨seen, r⟩

end

/-- The terms of a side. -/
def readSum : List (Located (Token α)) → Except (Unexpected α) (List (RawTerm α))
  | ⟨.plus, _⟩ :: r => readTerm 1 .sign r
  | ⟨.minus, _⟩ :: r => readTerm (-1) .sign r
  | r => readTerm 1 .nothing r

/-- The term with its name read as a coordinate. -/
def bind (clause : String) (hasObject : Bool) (t : RawTerm α) : Except ClauseError (Term α) :=
  match t.name with
  | none => .ok ⟨t.coefficient, none⟩
  | some ⟨s, span⟩ =>
    match Coord.ofName? s with
    | none => .error (.unknownToken clause s span)
    | some coord =>
      if coord.role = .object && !hasObject then
        .error (.malformed clause span s!"'{s}' refers to an object, but the constraint has none" ["x1, y1, x2, y2"])
      else .ok ⟨t.coefficient, some coord⟩

end RawTerm

/-! ## Sides and clauses -/

namespace Clause

variable {α : Type} [Scalar α]

/-- The error of a side that ends at byte `stop`. It stands at the first token that does not fit; where there is none,
it starts at the end of the side and stops at the end of the last token. -/
def malformedSide (clause : String) (stop : Nat) (tokens : List (Located (Token α))) (u : Unexpected α) : ClauseError :=
  match u.rest with
  | ⟨t, span⟩ :: _ => .malformed clause span ("unexpected " ++ t.describe) u.after.expected
  | [] =>
    let lastStop := (tokens.getLast?.map fun t => t.span.stop).getD stop
    .malformed clause ⟨stop, lastStop⟩ "unexpected end of expression" u.after.expected

/-- The sum that a side states. The side starts at byte `offset` of the clause. -/
def parseSide (side : List Char) (offset : Nat) (clause : String) (hasObject : Bool) :
    Except ClauseError (LinearExpr α) := do
  let tokens ← Token.lex side offset clause
  let raw ← (RawTerm.readSum tokens).mapError (malformedSide clause (offset + byteLength side) tokens)
  return ⟨← raw.mapM (RawTerm.bind clause hasObject)⟩

/-- The text before and after the first place at which `symbol` stands. -/
def splitAt? (symbol : List Char) : List Char → Option (List Char × List Char)
  | [] => none
  | c :: cs =>
    if symbol.isPrefixOf (c :: cs) then some ([], (c :: cs).drop symbol.length)
    else (splitAt? symbol cs).map fun (l, r) => (c :: l, r)

/-- The sides of a clause around its comparison: the first symbol of `Comparison.symbols` that occurs decides. -/
def splitSides? (cs : List Char) : Option (List Char × String × Comparison × List Char) :=
  Comparison.symbols.findSome? fun (symbol, comparison) =>
    (splitAt? symbol.toList cs).map fun (l, r) => (l, symbol, comparison, r)

/-- The clause that a text without keywords states. -/
def parse (clause : String) (hasObject : Bool) : Except ClauseError (Clause α) :=
  match splitSides? clause.toList with
  | none => .error (.missingOperator clause)
  | some (l, symbol, comparison, r) => do
    let lhs ← parseSide l 0 clause hasObject
    let rhs ← parseSide r (byteLength l + symbol.utf8ByteSize) clause hasObject
    return ⟨clause, comparison, lhs, rhs⟩

/-- The parts of a text between its commas. -/
def splitCommas : List Char → List (List Char)
  | [] => [[]]
  | c :: cs =>
    match splitCommas cs with
    | [] => [[c]]
    | part :: parts => if c = ',' then [] :: part :: parts else (c :: part) :: parts

/-- The texts of the clauses in a list of clauses: keywords expanded, blanks around them removed, empty ones left
out. -/
def texts (text : String) : List String :=
  (((splitCommas (Keyword.expandFrom [] text.toList)).map Text.trim).filter fun part => !part.isEmpty).map String.ofList

/-- The clauses of a list, or the error of the first that is none. -/
def parseAll (text : String) (hasObject : Bool) : Except ClauseError (List (Clause α)) :=
  (texts text).mapM fun clause => parse clause hasObject

end Clause

end RectLayout
