import RectLayout.Clause.Error
import RectLayout.Text.Line
import RectLayout.Text.Width

/-!
# Diagnostics

`ClauseError.render` shows a clause error to a reader at a terminal: the message, the place, and the lines of the
clause that hold the offending characters, these in red. If they stand on one line, the note below it is tied to their
middle by an arrow; otherwise an arrow in the margin leads from the first line to the last, and from there to the note.
The offending characters are counted from the start of the clause by the numbers of the error's span; a span that
starts or ends too far behind the last character leaves out the note or everything but the message.
-/

namespace RectLayout

/-- A part of a diagnostic that is drawn in one colour, the terminal's own one if `colour` is empty. -/
structure Painted where
  colour : String
  text : String
  deriving DecidableEq, Repr

namespace Painted

def red : String := "31"

def grey : String := "38;5;246"

def darkGrey : String := "38;5;240"

def lightGrey : String := "38;5;249"

def plain (text : String) : Painted := ⟨"", text⟩

/-- The part with the control sequences that switch its colour on and off. -/
def encode (p : Painted) : String :=
  if p.colour.isEmpty then p.text else "\x1b[" ++ p.colour ++ "m" ++ p.text ++ "\x1b[0m"

end Painted

namespace Span

/-- The part of a span behind the first `n` places, counted from there. -/
def drop (span : Span) (n : Nat) : Span := ⟨span.start - n, span.stop - n⟩

/-- The place in the middle of a span. -/
def middle (span : Span) : Nat := max span.start ((span.start + span.stop) / 2)

end Span

namespace ClauseError

open Painted

/-! ## A line and what is drawn below it -/

/-- The characters of a line without the blanks at its end, each with whether it belongs to the offending ones. -/
def highlighted (span : Span) (line : List Char) : List (Char × Bool) :=
  (Text.trimRight line).zipIdx.map fun (c, i) => (c, decide (span.start ≤ i ∧ i < span.stop))

/-- A line of the clause. A blank is drawn as so many spaces as it fills columns. -/
def clauseLine (span : Span) (line : List Char) : List Painted :=
  ((highlighted span line).zipIdx.map fun ((c, bad), i) =>
    let colour := if bad then red else lightGrey
    if Text.isBlank c then List.replicate (Text.columns c i) ⟨colour, " "⟩ else [⟨colour, String.singleton c⟩]).flatten

/-- The columns under the character at index `i`: the drawing in the first, its continuation in the others. -/
def under (line : List Char) (i : Nat) (first rest : Painted) : List Painted :=
  match (Text.trimRight line)[i]? with
  | none => [first]
  | some c => (List.range (Text.columns c i)).map fun k => if k = 0 then first else rest

/-- The drawing under the first `n` characters of a line. -/
def underAll (line : List Char) (n : Nat) (drawing : Painted) : List Painted :=
  ((List.range n).map fun i => under line i drawing drawing).flatten

/-- The underlining of the offending characters. -/
def underline (span : Span) (line : List Char) : List Painted :=
  ((List.range (span.stop + 2)).map fun i =>
    let inside := span.start ≤ i ∧ i < span.stop
    if i = span.middle then
      under line i ⟨red, if inside then "┬" else "│"⟩ (if inside then ⟨red, "─"⟩ else ⟨red, " "⟩)
    else if inside then under line i ⟨red, "─"⟩ ⟨red, "─"⟩
    else under line i (plain " ") (plain " ")).flatten

/-- The arrow that leads from the middle of the offending characters to the note. -/
def arrow (span : Span) (line : List Char) : List Painted :=
  ((List.range (span.stop + 2)).map fun i =>
    if i < span.middle then under line i (plain " ") (plain " ")
    else under line i ⟨red, if i = span.middle then "╰" else "─"⟩ ⟨red, "─"⟩).flatten

/-! ## The margin -/

/-- The margin of a line of the clause, whose number is brought to a width. -/
def numbered (width number : Nat) : List Painted :=
  let digits := toString number
  [plain " ", ⟨grey, String.ofList (List.replicate (width - digits.length) ' ') ++ digits ++ " │"⟩, plain " "]

/-- The margin of a line of the drawing, of which `bar` is the edge. -/
def unnumbered (width : Nat) (bar : String) : List Painted :=
  [plain " ", ⟨darkGrey, String.ofList (List.replicate (width + 1) ' ') ++ bar⟩, plain " "]

/-- What stands beside a line at which the arrow in the margin has a head. -/
def arrowHead (corner : String) : List Painted := [⟨red, corner⟩, ⟨red, "─"⟩, ⟨red, "▶"⟩, ⟨red, " "⟩]

/-- What stands beside a line which the arrow in the margin passes. -/
def arrowBar (bar : String) : List Painted := [⟨red, bar⟩, plain " ", plain " ", plain " "]

/-! ## The diagnostic -/

/-- Offending characters that stand on one line, and the note below them. A span that ends behind the last character
has no line. -/
def oneLine (e : ClauseError) (width number : Nat) (span : Span) (line : List Char) : List (List Painted) :=
  let margin := unnumbered width "│"
  if span.stop ≤ line.length then
    [numbered width number ++ clauseLine span line,
      margin ++ underline span line,
      margin ++ arrow span line ++ [plain " ", plain e.label]]
  else [margin]

/-- Offending characters on several lines, of which `first` is the number of the first, with the arrow in the margin,
and the note below the last. The lines between are left out. A span that ends behind the last character has no last
line. -/
def severalLines (e : ClauseError) (width first : Nat) (span : Span) (lines : List (List Char)) : List (List Painted) :=
  let margin := unnumbered width "│"
  let shown := lines.head?.toList.map fun line => numbered width first ++ arrowHead "╭" ++ clauseLine span line
  let last := (lines.getLast?.filter fun _ => span.stop ≤ lines.flatten.length).toList
  let between := (lines.tail.take (lines.tail.length - last.length)).head?.toList.map fun _ =>
    unnumbered width "┆" ++ arrowBar "┆"
  let before := lines.dropLast.flatten.length
  shown ++ between ++ (last.map fun line =>
    [numbered width (first + lines.length - 1) ++ arrowHead "├" ++ clauseLine (span.drop before) line,
      margin ++ arrowBar "│" ++ underAll line (line.length + 2) (plain " "),
      margin ++ [⟨red, "╰"⟩, ⟨red, "─"⟩, ⟨red, "─"⟩, ⟨red, "─"⟩] ++ underAll line (line.length + 2) ⟨red, "─"⟩ ++
        [plain " ", plain e.label]]).flatten

/-- The lines of a diagnostic below the message, for a span from the place `start`, a line and a column counted from 0,
to the line `last`. -/
def body (e : ClauseError) (filename : String) (start : Nat × Nat) (last : Nat) : List (List Painted) :=
  let lines := Text.lines e.clause.toList
  let width := (toString (last + 1)).length
  let blank := String.ofList (List.replicate (width + 2) ' ')
  let before := lines.take start.1
  let shown := (lines.drop start.1).take (last + 1 - start.1)
  let span := e.span.drop before.flatten.length
  [[plain blank, ⟨grey, "╭"⟩, ⟨grey, "─"⟩, ⟨grey, "["⟩, plain s!"{filename}:{start.1 + 1}:{start.2 + 1}", ⟨grey, "]"⟩],
    [plain blank, ⟨grey, "│"⟩]] ++
  (match shown with
    | [line] => e.oneLine width (start.1 + 1) span line
    | shown => e.severalLines width (start.1 + 1) span shown) ++
  [[⟨grey, String.ofList (List.replicate (width + 2) '─') ++ "╯"⟩]]

/-- The lines of a diagnostic for an error in a file. -/
def lines (e : ClauseError) (filename : String) : List (List Painted) :=
  let lines := Text.lines e.clause.toList
  let message := [⟨red, "Error:"⟩, plain " ", plain e.message]
  let start := Text.lineOf? lines e.span.start
  let last := if e.span.start < e.span.stop then Text.lineOf? lines (e.span.stop - 1) else start
  message :: match start, last with
    | some start, some last => e.body filename start last.1
    | _, _ => []

/-- The text of a diagnostic. -/
def render (e : ClauseError) (filename : String) : String :=
  String.join ((e.lines filename).map fun line => String.join (line.map encode) ++ "\n")

end ClauseError

end RectLayout
