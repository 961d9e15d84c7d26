/-!
# Characters and blanks of a TOML document

Which characters may stand where, and how blanks, line ends and comments are skipped. A line
ends with a line feed or with a carriage return followed by one. Control characters other than
the tab stand nowhere, not even in a comment.
-/

namespace BranchSync.Toml

/-- A blank within a line. -/
def isBlank (c : Char) : Bool := c == ' ' || c == '\t'

/-- A character that may stand in a comment: the tab and everything that is no control. -/
def isVisible (c : Char) : Bool :=
  c == '\t' || (0x20 ≤ c.toNat && c.toNat != 0x7f)

/-- A character that stands for itself between double quotes. -/
def isBasicChar (c : Char) : Bool :=
  isVisible c && c != '\x22' && c != '\\'

/-- A character that may stand between single quotes. -/
def isLiteralChar (c : Char) : Bool :=
  isVisible c && c != '\x27'

/-- A character of a key without quotes. -/
def isBareKeyChar (c : Char) : Bool :=
  c.isAlphanum || c == '-' || c == '_'

/-- A character of a class is none that does not belong to it. -/
theorem ne_of_class {p : Char → Bool} {c other : Char} (h : p c = true) (hother : p other = false) :
    c ≠ other := by
  rintro rfl
  rw [hother] at h
  cases h

/-- Skip blanks within a line. -/
def skipBlanks (input : List Char) : List Char :=
  input.dropWhile isBlank

/-- What follows a line end, if the input starts with one. -/
def afterNewline? : List Char → Option (List Char)
  | '\n' :: rest => some rest
  | '\r' :: '\n' :: rest => some rest
  | _ => none

/-- Whether a line ends here. -/
def startsNewline (input : List Char) : Bool :=
  (afterNewline? input).isSome

/-- Skip blanks, line ends and comments, as they may stand between the items of an array.
The flag tells whether the input starts within a comment. -/
def skipFiller : (inComment : Bool) → List Char → List Char
  | _, [] => []
  | true, c :: rest =>
    if isVisible c then skipFiller true rest
    else if c = '\n' then skipFiller false rest
    else if c = '\r' ∧ rest.head? = some '\n' then skipFiller true rest
    else c :: rest
  | false, c :: rest =>
    if isBlank c ∨ c = '\n' then skipFiller false rest
    else if c = '\r' ∧ rest.head? = some '\n' then skipFiller false rest
    else if c = '#' then skipFiller true rest
    else c :: rest

/-- What follows the end of a line of which only blanks and a comment are left. The end of the
document ends a line too. -/
def endLine? (input : List Char) : Option (List Char) :=
  let rest := match skipBlanks input with
    | '#' :: comment => comment.dropWhile isVisible
    | rest => rest
  match rest with
  | [] => some []
  | rest => afterNewline? rest

end BranchSync.Toml
