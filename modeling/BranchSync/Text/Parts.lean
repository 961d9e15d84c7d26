/-!
# Parts of a text

A separator divides a text into parts: one more than it occurs, with none of it left inside.
Parts may be empty, and a text in which the separator does not occur is its own only part.
-/

namespace BranchSync.Text

/-- The parts of a text between the occurrences of a separator. -/
def partsAt (separator : Char) : List Char → List (List Char)
  | [] => [[]]
  | c :: rest =>
    match partsAt separator rest with
    | [] => [[c]]
    | part :: parts => if c = separator then [] :: part :: parts else (c :: part) :: parts

end BranchSync.Text
