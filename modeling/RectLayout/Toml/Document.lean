import RectLayout.Toml.Number
import RectLayout.Toml.Quoted
import RectLayout.Toml.Value

/-!
# Documents

`parse?` reads a TOML document. A document is a list of lines: headers, which open a table, and entries, which add a
value at a key to the table that is open. Each reader takes its part off the front of a text and returns what it read
with the rest, or refuses the text; which of two faults it meets first is not told.
-/

namespace RectLayout.Toml

/-- The number at which nested brackets, or the steps of a dotted key, are too many. -/
def depthLimit : Nat := 80

/-! ## Between values -/

/-- The text after its blanks. -/
def skipBlanks (cs : List Char) : List Char := cs.dropWhile isBlank

/-- The text after its blanks, line ends and comments. A comment is open at the front of it if `inComment`. -/
def skipLines (inComment : Bool) : List Char → List Char
  | [] => []
  | '\r' :: '\n' :: r => skipLines false r
  | c :: r =>
    if c = '\n' then skipLines false r
    else if inComment then if isPlain c then skipLines true r else c :: r
    else if isBlank c then skipLines false r
    else if c = '#' then skipLines true r
    else c :: r

/-- The text after the end of a line, on which nothing but a comment may come before it. -/
def endLine? (cs : List Char) : Option (List Char) :=
  let cs := skipBlanks cs
  let cs := if cs.head? = some '#' then cs.dropWhile isPlain else cs
  if cs.isEmpty then some [] else Quoted.lineEnd? cs

/-! ## Keys -/

/-- One step of a key: a word, or a quoted text. -/
def readStep? (cs : List Char) : Option (String × List Char) :=
  let isKeyChar (c : Char) := c.isAlphanum || c == '-' || c == '_'
  let word := cs.takeWhile isKeyChar
  if word.isEmpty then Quoted.readLine? cs else some (String.ofList word, cs.dropWhile isKeyChar)

/-- A key of fewer steps than `limit`, with dots between them: the steps before the last, and the last. -/
def readKey? : Nat → List Char → Option ((List String × String) × List Char)
  | limit + 2, cs => do
    let (k, r) ← readStep? (skipBlanks cs)
    match skipBlanks r with
    | '.' :: r =>
      let ((path, last), r) ← readKey? (limit + 1) r
      return ((k :: path, last), r)
    | r => return (([], k), r)
  | _, _ => none

/-! ## Values -/

/-- The items of an array up to its closing bracket. A comma may follow the last one. -/
def readItems? (item : List Char → Option (Value × List Char)) : Nat → List Char → Option (List Value × List Char)
  | 0, _ => none
  | fuel + 1, cs =>
    match skipLines false cs with
    | ']' :: r => some ([], r)
    | cs => do
      let (v, r) ← item cs
      match skipLines false r with
      | ']' :: r => return ([v], r)
      | ',' :: r =>
        let (vs, r) ← readItems? item fuel r
        return (v :: vs, r)
      | _ => none

/-- One entry: a key, the equals sign and a value. -/
def readPair? (value : List Char → Option (Value × List Char)) (cs : List Char) :
    Option ((List String × String) × Value × List Char) := do
  let (key, r) ← readKey? depthLimit cs
  match r with
  | '=' :: r => return (key, ← value (skipBlanks r))
  | _ => none

/-- The entries of a table between braces, after those in `es`, up to the closing brace. -/
def readFields? (value : List Char → Option (Value × List Char)) :
    Nat → Entries → List Char → Option (Entries × List Char)
  | 0, _, _ => none
  | fuel + 1, es, cs => do
    let ((path, k), v, r) ← readPair? value cs
    let es ← addEntry path k v .braces es
    match skipBlanks r with
    | '}' :: r => return (es, r)
    | ',' :: r => readFields? value fuel es r
    | _ => none

/-- A value in which fewer than `limit` brackets are nested. -/
def readValue? : Nat → List Char → Option (Value × List Char)
  | limit + 2, '[' :: r => do
    let (items, rest) ← readItems? (readValue? (limit + 1)) (r.length + 1) r
    return (.array items, rest)
  | limit + 2, '\x7b' :: r =>
    match skipBlanks r with
    | '}' :: rest => some (.table .braces [], rest)
    | _ => do
      let (es, rest) ← readFields? (readValue? (limit + 1)) (r.length + 1) [] r
      return (.table .braces es, rest)
  | _, cs =>
    if cs.head? = some '"' ∨ cs.head? = some '\'' then do
      let (s, r) ← Quoted.read? cs
      return (.string s, r)
    else do
      let (word, r) := takeWord cs
      return (← Value.ofWord? word, r)

/-! ## Lines -/

/-- A header after its opening brackets: the key, up to the end of the line. -/
def readHeader? (closing : List Char) (cs : List Char) : Option ((List String × String) × List Char) := do
  let (key, r) ← readKey? depthLimit cs
  if closing.isPrefixOf r then return (key, ← endLine? (r.drop closing.length)) else none

/-- A document read line by line: `root` holds what has been read, and entries go to the table at `opened`. -/
def readLines? : Nat → List String → Entries → List Char → Option Entries
  | 0, _, _, _ => none
  | fuel + 1, opened, root, cs =>
    match skipBlanks cs with
    | [] => some root
    | '[' :: '[' :: r => do
      let ((path, k), r) ← readHeader? [']', ']'] r
      readLines? fuel (path ++ [k]) (← openElement path k root) r
    | '[' :: r => do
      let ((path, k), r) ← readHeader? [']'] r
      readLines? fuel (path ++ [k]) (← openTable path k root) r
    | c :: r =>
      if c = '#' ∨ c = '\n' ∨ c = '\r' then do readLines? fuel opened root (← endLine? (c :: r))
      else do
        let ((path, k), v, r) ← readPair? (readValue? depthLimit) (c :: r)
        readLines? fuel opened (← within .path (addEntry path k v) .header root opened) (← endLine? r)

/-- The entries of a document. A byte order mark at the front is skipped. -/
def parse? (s : String) : Option Entries :=
  let cs := s.toList
  let cs := if cs.head? = some '\ufeff' then cs.tail else cs
  readLines? (cs.length + 1) [] [] cs

end RectLayout.Toml
