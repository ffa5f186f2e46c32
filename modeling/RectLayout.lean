import RectLayout.Design.Flatten
import RectLayout.Directory
import RectLayout.Library.Import
import RectLayout.Main
import RectLayout.Proofs.Design.Active
import RectLayout.Proofs.Design.Propagate
import RectLayout.Proofs.Solve.Allocation
import RectLayout.Proofs.Solve.Run
import RectLayout.Proofs.Design.Edit
import RectLayout.Proofs.Design.WellFormed
import RectLayout.Proofs.Solve.Determinism
import RectLayout.Proofs.Frozen
import RectLayout.Proofs.Problem.Row
import RectLayout.Proofs.Problem.NormalForm
import RectLayout.Proofs.Problem.Violation
import RectLayout.Proofs.Clause.Meaning
import RectLayout.Proofs.Solve.Compile
import RectLayout.Proofs.Solve.Unknowns
import RectLayout.Proofs.Solve.Correction
import RectLayout.Proofs.Solve.Verdict
import RectLayout.Proofs.Solve.Differences
import RectLayout.Proofs.Solve.Report
import RectLayout.Proofs.Solve.Grid
import RectLayout.Proofs.Solve.Substitution
import RectLayout.Proofs.Solve.Structure
import RectLayout.Proofs.Solve.Inside
import RectLayout.Proofs.Design.Flatten
import RectLayout.Proofs.FrozenDrawing
import RectLayout.Proofs.Design.Drawing
import RectLayout.Proofs.Design.Fill
import RectLayout.Proofs.Search
import RectLayout.Proofs.Design.InPlace
import RectLayout.Proofs.Design.Made
import RectLayout.Proofs.Design.Fixpoint
import RectLayout.Proofs.Library.Import
import RectLayout.Proofs.Library.Units
import RectLayout.Proofs.Library.Export
import RectLayout.Proofs.Library.RoundTrip
import RectLayout.Proofs.Clause.Lexeme
import RectLayout.Proofs.Clause.Lexing
import RectLayout.Proofs.Clause.Grammar
import RectLayout.Proofs.Clause.Parsing
import RectLayout.Proofs.Clause.Expansion
import RectLayout.Proofs.Clause.Words
import RectLayout.Proofs.Clause.Texts
import RectLayout.Proofs.Clause.KeywordValue
import RectLayout.Proofs.Clause.GluedKeyword
import RectLayout.Proofs.Solve.InPlace
import RectLayout.Proofs.Solve.LocalSearch
import RectLayout.Proofs.Solve.Effect
import RectLayout.Proofs.Library.Drawing
import RectLayout.Proofs.Library.Transcript
import RectLayout.Proofs.LinearProgram.Elimination
import RectLayout.Proofs.Solve.Passes
import RectLayout.Proofs.LinearProgram.Solution
import RectLayout.Proofs.LinearProgram.Search
import RectLayout.Proofs.Solve.Feasibility
import RectLayout.Proofs.Solve.DemandRows
import RectLayout.Proofs.Library.Inventory
import RectLayout.Proofs.Library.Outcome
import RectLayout.Proofs.Design.Nested
import RectLayout.Proofs.Solve.Objective
import RectLayout.Proofs.Library.Order
import RectLayout.Proofs.Library.Canonical
import RectLayout.Proofs.Library.Names
import RectLayout.Proofs.Design.Grow
import RectLayout.Proofs.Design.Entry
import RectLayout.Proofs.Design.Build
import RectLayout.Proofs.Design.Chains
import RectLayout.Proofs.Clause.Lists
import RectLayout.Proofs.Clause.Places
import RectLayout.Proofs.Clause.Errors
import RectLayout.Proofs.Clause.Highlight
import RectLayout.Proofs.Problem.Canonical
import RectLayout.Proofs.Problem.AreaGradient
import RectLayout.Proofs.Text.EditDistance
import RectLayout.Proofs.Design.Suggestions
