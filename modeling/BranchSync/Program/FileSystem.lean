import BranchSync.Program.Run
import BranchSync.Text.Parts

/-!
# Files by path

Files held in memory, so that the program can be run where there is no file system, and the rule by
which a path finds one of them. A path is followed part by part, from the outermost directory if it
begins with a slash and from the working directory otherwise. Only a directory has parts: an empty
part and `.` stay there, `..` goes to the directory around it, and any other part is a name in it.
Nothing lies around the outermost directory, so there `..` stays as well.
-/

namespace BranchSync

/-- A place in a file system: the names that lead to it from the outermost directory. -/
abbrev Place := List String

/-- Directories, and files with their contents. -/
structure FileSystem where
  directories : List Place
  files : List (Place × List UInt8)

namespace FileSystem

/-- The working directory. No part of a path is its name, since that is not known. -/
def workingDirectory : Place :=
  ["tmp", "/"]

/-- The longest path that is looked up, in octets. -/
def longestPath : Nat :=
  4095

/-- The parts of a path. -/
def partsOf (path : String) : List String :=
  (Text.partsAt '/' path.toList).map String.ofList

/-- A system whose working directory holds the given files under their names. Apart from it there are
the null device and the directory of programs. -/
def ofFiles (files : List (String × List UInt8)) : FileSystem where
  directories := [workingDirectory, ["usr"]]
  files := (["dev", "null"], []) ::
    files.map fun file => (workingDirectory ++ partsOf file.1, file.2)

/-- Whether there is a directory at a place: one that is listed, or is around something. -/
def isDirectory (system : FileSystem) (place : Place) : Bool :=
  system.directories.any place.isPrefixOf ||
    system.files.any fun file => place != file.1 && place.isPrefixOf file.1

/-- Where the parts of a path lead from a place, unless one of them has no directory to start
from. -/
def follow (system : FileSystem) (place : Place) : List String → Option Place
  | [] => some place
  | part :: rest =>
    if !system.isDirectory place then none
    else if part = "" ∨ part = "." then system.follow place rest
    else if part = ".." then system.follow place.dropLast rest
    else system.follow (place ++ [part]) rest

/-- Read files by their paths. -/
def reader (system : FileSystem) : FileReader := fun path =>
  if longestPath < (Text.octets path).length then none
  else
    let start := if path.toList.head? = some '/' then [] else workingDirectory
    (system.follow start (partsOf path)).bind fun place => system.files.lookup place

end FileSystem

end BranchSync
