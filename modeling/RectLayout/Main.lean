import RectLayout.Command

/-!
# The program

Reads the files that the arguments name, runs the command and leaves what it says.
-/

namespace RectLayout.Main

/-- The contents of a file, none if it cannot be read. -/
def contents (name : String) : IO (Option String) := do
  try
    return some (← IO.FS.readFile name)
  catch _ => return none

/-- The files that the options name. -/
def filesOf (o : Options) : List String := o.design :: o.config.toList ++ o.layers.toList

/-- The contents of the files that the words name. -/
def readFiles (words : List String) : IO (List (String × String)) :=
  match Options.ofWords words with
  | .error _ => return []
  | .ok o => (filesOf o).filterMapM fun name => do return (← contents name).map (name, ·)

end RectLayout.Main

def main (words : List String) : IO UInt32 := do
  let files ← RectLayout.Main.readFiles words
  let outcome := RectLayout.Command.run (fun name => files.lookup name) words
  IO.print outcome.stdout
  IO.eprint outcome.stderr
  return UInt32.ofNat outcome.code
