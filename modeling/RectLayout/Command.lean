import RectLayout.Clause.Diagnostic
import RectLayout.Design.Freeze
import RectLayout.Input
import RectLayout.Library.Export
import RectLayout.Output
import RectLayout.Solve.Pipeline

/-!
# The command

`Command.run` solves the top cell of a design file and writes the boxes of the design, or its library. What it does is
a function of the arguments and of the texts of the files that they name.
-/

namespace RectLayout

/-! ## Arguments -/

/-- What the arguments ask for. -/
structure Options where
  design : String
  config : Option String
  /-- The cell to solve, if not the top cell of the file. -/
  top : Option String
  /-- Whether the solved cell is frozen. -/
  freeze : Bool
  /-- The layer table, if the library is to be written instead of the boxes. -/
  layers : Option String
  deriving DecidableEq, Repr

/-- Arguments on their way to options. -/
structure Arguments where
  design : Option String
  config : Option String
  top : Option String
  freeze : Bool
  layers : Option String

namespace Arguments

def none : Arguments := ⟨.none, .none, .none, false, .none⟩

/-- The arguments with the value of an option; an option is given once. -/
def setOption (a : Arguments) (name value : String) : Except String Arguments :=
  let once (old : Option String) (a : Arguments) : Except String Arguments :=
    if old.isSome then .error s!"option '{name}' is given more than once" else .ok a
  match name with
  | "config" => once a.config { a with config := value }
  | "top" => once a.top { a with top := value }
  | "export" => once a.layers { a with layers := value }
  | _ => .error s!"there is no option '{name}'"

/-- The arguments with the flag `freeze`. -/
def setFreeze (a : Arguments) : Except String Arguments :=
  if a.freeze then .error "option 'freeze' is given more than once" else .ok { a with freeze := true }

/-- The arguments with the name of the design file. -/
def setDesign (a : Arguments) (name : String) : Except String Arguments :=
  if a.design.isSome then .error s!"unexpected argument '{name}'" else .ok { a with design := name }

/-- The option that a letter stands for. -/
def optionOfLetter : Char → String
  | 'c' => "config"
  | 't' => "top"
  | 'e' => "export"
  | c => String.singleton c

/-- The text without an equals sign at its front. -/
def dropEquals (cs : List Char) : List Char := if cs.head? = some '=' then cs.tail else cs

/-- A group of letters after one hyphen: flags, and maybe an option at the end whose value is the rest of the group. If
nothing is left for the value, the option waits for the next argument. -/
def addLetters (a : Arguments) : List Char → Except String (Arguments × Option String)
  | [] => .ok (a, .none)
  | 'f' :: r => do addLetters (← a.setFreeze) r
  | c :: r => do
    let name := optionOfLetter c
    if r.isEmpty then return (a, some name)
    else return (← a.setOption name (String.ofList (dropEquals r)), .none)

/-- The name and the value of a long option, which an equals sign parts. -/
def splitLong (cs : List Char) : String × Option String :=
  let name := String.ofList (cs.takeWhile (· != '='))
  match cs.dropWhile (· != '=') with
  | _ :: value => (name, some (String.ofList value))
  | [] => (name, .none)

/-- The arguments with one more word: an option, the value of the option that waits for one, or the name of the design
file. Returns the option that waits for the next word. -/
def addWord (a : Arguments) (waiting : Option String) (word : String) : Except String (Arguments × Option String) :=
  match waiting, word.toList with
  | some name, '-' :: _ :: _ => .error s!"option '{name}' has no value"
  | some name, _ => do return (← a.setOption name word, .none)
  | .none, '-' :: '-' :: r => do
    match splitLong r with
    | ("freeze", .none) => return (← a.setFreeze, .none)
    | (name, some value) => return (← a.setOption name value, .none)
    | (name, .none) => return (a, some name)
  | .none, '-' :: c :: r => a.addLetters (c :: r)
  | .none, _ => do return (← a.setDesign word, .none)

/-- The arguments with a list of words. After two hyphens no word is an option. -/
def addWords (a : Arguments) (waiting : Option String) : List String → Except String Arguments
  | [] =>
    match waiting with
    | some name => .error s!"option '{name}' has no value"
    | .none => .ok a
  | word :: words => do
    if waiting.isNone && word == "--" then words.foldlM setDesign a
    else
      let (a, waiting) ← a.addWord waiting word
      a.addWords waiting words

end Arguments

/-- The options that a list of words gives. -/
def Options.ofWords (words : List String) : Except String Options := do
  let a ← Arguments.none.addWords none words
  match a.design with
  | some design => return ⟨design, a.config, a.top, a.freeze, a.layers⟩
  | none => throw "the design file is missing"

/-! ## Runs -/

/-- What a run of the command leaves. -/
structure Outcome where
  code : Nat
  stdout : String
  stderr : String
  deriving DecidableEq, Repr

namespace Command

/-- A run with what it has written to standard error, which ends early with one more text there. -/
abbrev Run := ExceptT String (StateM String)

/-- Writes to standard error. -/
def warn (text : String) : Run Unit := modify (· ++ text)

/-- Ends the run with an error. -/
def fail {β : Type} (text : String) : Run β := throw s!"Error: {text}\n"

/-- Ends the run with the error of a layout. A clause is shown with the place of its fault, and a name with those that
are near it. -/
def failWith {β : Type} (file : String) (e : LayoutError) : Run β :=
  match e with
  | .clause c => throw (c.render file)
  | .undefinedName _ _ (s :: suggestions) =>
    let names := String.intercalate ", " (s :: suggestions)
    fail s!"{e.message} (did you mean {names}?)"
  | e => fail e.message

/-- The value of a step of the layout, or the end of the run. -/
def check {β : Type} (file : String) (r : Except LayoutError β) : Run β :=
  match r with
  | .ok v => pure v
  | .error e => failWith file e

/-- What is said of a file that does not exist. -/
def missingFile : String := "Failed to read file: No such file or directory (os error 2)"

/-- What is said of a file that cannot be read as what it should be. -/
def unreadable : String := "Failed to parse TOML: the document is not of the form that is read here"

/-- The contents of a file, read as what it should be. -/
def load {β : Type} (files : String → Option String) (read : String → Option β) (name : String) : Except String β :=
  match files name with
  | none => .error missingFile
  | some text =>
    match read text with
    | none => .error unreadable
    | some v => .ok v

/-- The settings of a run. -/
def config (files : String → Option String) (o : Options) : Run (SolveConfig Float) :=
  match o.config with
  | none => pure .standard
  | some name =>
    match load files SolveConfig.ofToml? name with
    | .ok c => pure c
    | .error e => throw s!"Error loading config '{name}': {e}\n"

/-- The design file of a run. -/
def designFile (files : String → Option String) (o : Options) : Run (DesignFile Float) :=
  match load files DesignFile.ofToml? o.design with
  | .ok f => pure f
  | .error e => throw s!"Error reading design '{o.design}': {e}\n"

/-- The cell that a run solves. -/
def topCell (o : Options) (d : Design Float) (top : CellId) : Run CellId :=
  match o.top with
  | none => pure top
  | some name =>
    match d.cellNamed? name with
    | some c => pure c
    | none => fail s!"no cell named '{name}'"

/-- The library of a solved cell as a document. -/
def library (files : String → Option String) (layers : String) (d : Design Float) (top : CellId) : Run String :=
  match load files LayerTable.ofToml? layers with
  | .error e => fail s!"cannot load layer table '{layers}': {e}"
  | .ok table =>
    match Library.ofDesign d top table Library.standardRatio with
    | .error e => fail e.message
    | .ok lib => pure lib.toToml

/-- A run with the given options: the document that it writes. -/
def output (files : String → Option String) (o : Options) : Run String := do
  let config ← config files o
  let file ← designFile files o
  let (d, top) ← check o.design file.build
  let top ← topCell o d top
  let (d, report) ← check o.design do
    let (d, report) ← d.solve top config
    return (d, ← report.toExcept)
  match report.warning with
  | some warning => warn s!"Warning: {warning.text}\n"
  | none => pure ()
  let d ← if o.freeze then check o.design (Prod.fst <$> d.freeze top) else pure d
  match o.layers with
  | some layers => library files layers d top
  | none => pure d.toToml

/-- A run of the command with the files that it finds. The document ends with an empty line. -/
def run (files : String → Option String) (words : List String) : Outcome :=
  match Options.ofWords words with
  | .error e => ⟨2, "", s!"Error: {e}\n"⟩
  | .ok o =>
    match (output files o).run.run "" with
    | (.ok text, said) => ⟨0, text ++ "\n", said⟩
    | (.error e, said) => ⟨1, "", said ++ e⟩

end Command

end RectLayout
