/-!
# Clause errors

Why a text is not a clause, and where. Places are ranges of UTF-8 bytes of the clause.
-/

namespace RectLayout

/-- A range of bytes: from `start` up to, but not with, `stop`. At the end of a side whose last token is followed by
blanks, an error's range starts behind the blanks and stops before them. -/
structure Span where
  start : Nat
  stop : Nat
  deriving DecidableEq, Repr

inductive ClauseError where
  /-- The tokens of a side form no sum, or it names an object where there is none. -/
  | malformed (clause : String) (span : Span) (detail : String) (expected : List String)
  | missingOperator (clause : String)
  /-- A character that starts no token, or a name that is no coordinate. -/
  | unknownToken (clause token : String) (span : Span)
  deriving DecidableEq, Repr

namespace ClauseError

/-- The clause in which the error was found. -/
def clause : ClauseError → String
  | malformed clause _ _ _ => clause
  | missingOperator clause => clause
  | unknownToken clause _ _ => clause

/-- The place of the error: the whole clause, if an operator is missing. -/
def span : ClauseError → Span
  | malformed _ span _ _ => span
  | missingOperator clause => ⟨0, clause.utf8ByteSize⟩
  | unknownToken _ _ span => span

def message : ClauseError → String
  | malformed clause _ detail _ => s!"cannot parse clause '{clause}': {detail}"
  | missingOperator clause => s!"clause '{clause}' has no comparison operator (expected one of <=, >=, <, >, =)"
  | unknownToken clause token _ => s!"unknown token '{token}' in clause '{clause}'"

/-- The note that a diagnostic attaches to the place of the error. -/
def label : ClauseError → String
  | malformed _ _ detail [] => detail
  | malformed _ _ detail expected => s!"{detail}\nExpected: " ++ String.intercalate ", " expected
  | missingOperator _ => "no comparison operator"
  | unknownToken _ token _ => s!"'{token}' is neither a number nor a coordinate"

end ClauseError

end RectLayout
