import BranchSync.Program.Run

/-!
# The program

Connects the command line and the file system to `runProgram`. Listening is left to a host
that brings a network.
-/

namespace BranchSync

/-- The contents of a file, nothing if it cannot be read. -/
def readFile (path : String) : IO (Option (List UInt8)) := do
  try
    let bytes ← IO.FS.readBinFile path
    pure (some bytes.toList)
  catch _ => pure none

/-- The path of the configuration file that a command line names. -/
def configPath (words : List String) : Option String :=
  match Command.ofWords words with
  | .ok (.serve path _ _) => path
  | .ok (.config path) => path
  | .error _ => none

/-- Run the program on its command line and yield the exit code. -/
def start (words : List String) : IO UInt32 := do
  let path := configPath words
  let content ← match path with
    | none => pure none
    | some p => readFile p
  let files := fun p => if some p = path then content else none
  match runProgram files words with
  | .ended code output diagnostics =>
    IO.print output
    IO.eprint diagnostics
    pure code.toUInt32
  | .ready settings _ =>
    IO.eprintln s!"Error: no network to listen on {settings.bindAddress.display}"
    pure 1

end BranchSync

/-- The entry point of the program. -/
def main (words : List String) : IO UInt32 :=
  BranchSync.start words
