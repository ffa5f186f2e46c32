/-!
# Values of a document

A TOML document is a table of values. `alter` changes what stands at a key; `within` does so at the end of a path of
keys, through tables inside tables. Which tables a path may pass depends on how they were written (`Origin`), so that
no table is defined twice.
-/

namespace RectLayout.Toml

/-- How a table was written. -/
inductive Origin where
  /-- With a header of its own, or as the document itself. -/
  | header
  /-- As a step on the way to the table of a header. -/
  | path
  /-- As a step of the dotted key of an entry. -/
  | dotted
  /-- Between braces. -/
  | braces
  deriving DecidableEq, Repr

inductive Value where
  | string (s : String)
  | integer (n : Int)
  | float (x : Float)
  | boolean (b : Bool)
  /-- A date, a time, or both. No setting is one, so that nothing but its form is kept. -/
  | dateTime
  | array (items : List Value)
  /-- An array that is written with one header for each of its tables. -/
  | tables (items : List Value)
  | table (origin : Origin) (entries : List (String × Value))
  deriving Inhabited

/-- The entries of a table, in the order in which they were written. -/
abbrev Entries := List (String × Value)

/-- The entries with what stands at `k` replaced by what `f` makes of it; none if `f` refuses. -/
def alter (k : String) (f : Option Value → Option Value) : Entries → Option Entries
  | [] => do return [(k, ← f none)]
  | (l, v) :: r => if l = k then do return (k, ← f (some v)) :: r else do return (l, v) :: (← alter k f r)

/-- The entries with `v` at a key that was free. -/
def insertNew (k : String) (v : Value) : Entries → Option Entries :=
  alter k fun
    | none => some v
    | some _ => none

/-- The entries of a table, changed by `f` at the end of a path of keys. Missing tables on the way are made as `made`
says; of an array of tables the path takes the last one. A path does not enter a table between braces, and a dotted
key does not enter a table with a header. -/
def within (made : Origin) (f : Origin → Entries → Option Entries) (o : Origin) (es : Entries) :
    List String → Option Entries
  | [] => f o es
  | k :: path =>
    alter k (fun
      | none => Value.table made <$> within made f made [] path
      | some (.table o es) =>
        if o = .braces ∨ (made = .dotted ∧ o = .header) then none else Value.table o <$> within made f o es path
      | some (.tables items) =>
        match items.reverse with
        | .table o es :: before => do return .tables (.table o (← within made f o es path) :: before).reverse
        | _ => none
      | some _ => none) es

/-- A table with an entry added at a key, which may be dotted: `path` are its steps before the last. The table that
gets the entry was made by dotted keys just when there are such steps. -/
def addEntry (path : List String) (k : String) (v : Value) (o : Origin) (es : Entries) : Option Entries :=
  within .dotted (fun o es => if decide (o = .dotted) = path.isEmpty then none else insertNew k v es) o es path

/-- A document with the table of a header: a new one, or one that was only a step so far. -/
def openTable (path : List String) (k : String) (root : Entries) : Option Entries :=
  within .path (fun _ es => alter k (fun
    | none => some (.table .header [])
    | some (.table .path es) => some (.table .header es)
    | some _ => none) es) .header root path

/-- A document with one more table in the array of tables of a header. -/
def openElement (path : List String) (k : String) (root : Entries) : Option Entries :=
  within .path (fun _ es => alter k (fun
    | none => some (.tables [.table .header []])
    | some (.tables items) => some (.tables (items ++ [.table .header []]))
    | some _ => none) es) .header root path

end RectLayout.Toml
