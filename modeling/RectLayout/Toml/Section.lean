import RectLayout.Decimal.Double

/-!
# Writing documents

A document is written as sections with an empty line between them: the entries of the document itself, and tables of
arrays under their headers. Text goes between double quotes if it can stand there without escapes, else in the first
form of `forms` that fits it, and only if none does with escapes.
-/

namespace RectLayout.Toml

/-! ## Text -/

/-- The length of the longest run of a character. -/
def longestRun (q : Char) (cs : List Char) : Nat :=
  (cs.foldl (fun (best, run) c => if c = q then (max best (run + 1), run + 1) else (best, 0)) (0, 0)).1

/-- A control character that has to be escaped on every line. -/
def isControl (c : Char) : Bool := c < ' ' && c != '\t' && c != '\n' || c == '\x7f'

/-- A way to quote a text. -/
inductive Form where
  | basic
  | literal
  | basicLines
  | literalLines
  deriving DecidableEq, Repr

namespace Form

/-- Whether a text can be quoted in a form without any escape. -/
def fits (f : Form) (cs : List Char) : Bool :=
  !cs.any isControl &&
    match f with
    | basic => longestRun '"' cs = 0 && !cs.contains '\\' && !cs.contains '\n'
    | literal => longestRun '\'' cs = 0 && !cs.contains '\n'
    | basicLines => longestRun '"' cs ≤ 2 && !cs.contains '\\'
    | literalLines => longestRun '\'' cs ≤ 2

/-- The forms in the order in which they are tried. -/
def forms : List Form := [basic, literal, basicLines, literalLines]

/-- The form of a text. One that fits no form is escaped, on several lines if it has any. -/
def ofText (cs : List Char) : Form :=
  (forms.find? fun f => f.fits cs).getD (if cs.contains '\n' then basicLines else basic)

def quotes : Form → List Char
  | basic => ['"']
  | literal => ['\'']
  | basicLines => ['"', '"', '"']
  | literalLines => ['\'', '\'', '\'']

end Form

/-- Four hexadecimal digits. -/
def hexDigits (n : Nat) : List Char :=
  let ds := (Nat.toDigits 16 n).map Char.toUpper
  List.replicate (4 - ds.length) '0' ++ ds

/-- The text between double quotes, with escapes. On several lines a line end stands for itself, and so do up to two
double quotes in a row; `run` counts those that came before. -/
def escape (lines : Bool) (run : Nat) : List Char → List Char
  | [] => []
  | c :: r =>
    if c = '"' then
      if lines ∧ run < 2 then c :: escape lines (run + 1) r else '\\' :: '"' :: escape lines 0 r
    else
      (match c with
        | '\x08' => ['\\', 'b']
        | '\t' => ['\\', 't']
        | '\n' => if lines then ['\n'] else ['\\', 'n']
        | '\x0c' => ['\\', 'f']
        | '\r' => ['\\', 'r']
        | '\\' => ['\\', '\\']
        | c => if isControl c then '\\' :: 'u' :: hexDigits c.toNat else [c]) ++ escape lines 0 r

/-- A text in quotes. -/
def quote (s : String) : String :=
  let cs := s.toList
  let form := Form.ofText cs
  let lines := form = .basicLines ∨ form = .literalLines
  let body := if form = .basic ∨ form = .basicLines then escape (decide (form = .basicLines)) 0 cs else cs
  let start := if lines ∧ cs.contains '\n' then ['\n'] else []
  String.ofList (form.quotes ++ start ++ body ++ form.quotes)

/-! ## Numbers and arrays -/

/-- A double, always with a fraction or as a word. -/
def number (x : Float) : String :=
  if x.isNaN then "nan"
  else if x.isInf ∨ x.floor != x then Double.text x
  else Double.text x ++ ".0"

/-- An array on one line. -/
def array (items : List String) : String := "[" ++ String.intercalate ", " items ++ "]"

/-! ## Documents -/

/-- A part of a document. -/
structure Section where
  /-- The array of tables to which the part adds one; none for the entries of the document itself. -/
  path : Option String
  /-- The entries, each a key and the text of its value. -/
  entries : List (String × String)

namespace Section

def lines (s : Section) : List String :=
  (match s.path with
    | some path => [s!"[[{path}]]"]
    | none => []) ++ s.entries.map fun (k, v) => s!"{k} = {v}"

/-- The text of a section, one line for the header and each entry. -/
def text (s : Section) : String := String.join (s.lines.map (· ++ "\n"))

/-- The text of a document. A section without lines is left out. -/
def document (sections : List Section) : String :=
  String.intercalate "\n" ((sections.map text).filter fun t => !t.isEmpty)

end Section

end RectLayout.Toml
