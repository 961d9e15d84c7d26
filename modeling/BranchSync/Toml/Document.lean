import BranchSync.Toml.Item
import BranchSync.Toml.Quotation

/-!
# Reading TOML documents

A document is read in two steps. The text is read line by line into assignments and headers,
and these are then built into one table, where repeated and conflicting definitions show. Keys
and values nest at most 79 deep, so a value is read by recursion on the depth that is left.
-/

namespace BranchSync.Toml

open Text.Scan

/-- How many parts a dotted key may have, and how deep arrays and braces may nest. -/
def nestingLimit : Nat := 79

/-- Read one part of a key. -/
def readKeyPart : Reader String
  | '\x22' :: rest => (readBasic rest).map fun r => (String.ofList r.1, r.2)
  | '\x27' :: rest => (readLiteral rest).map fun r => (String.ofList r.1, r.2)
  | input =>
    match input.takeWhile isBareKeyChar with
    | [] => none
    | part => some (String.ofList part, input.dropWhile isBareKeyChar)

/-- Read a key of at most the given number of parts, with the blanks around every part. -/
def readKeyParts : (room : Nat) → Reader (List String)
  | 0 => fun _ => none
  | room + 1 => fun input => do
    let (part, rest) ← readKeyPart (skipBlanks input)
    match skipBlanks rest with
    | '.' :: rest => do
      let (parts, rest) ← readKeyParts room rest
      pure (part :: parts, rest)
    | rest => pure ([part], rest)

/-- Read a key: the path before its last part, and the last part. -/
def readKey : Reader (List String × String) := fun input => do
  let (parts, rest) ← readKeyParts nestingLimit input
  let last ← parts.getLast?
  pure ((parts.dropLast, last), rest)

/-- Read a key, an equals sign and a value, with blanks around the sign. -/
def readAssignment (value : Reader Item) : Reader Assignment := fun input => do
  let ((path, key), rest) ← readKey input
  let ((), rest) ← char '=' rest
  let (item, rest) ← value (skipBlanks rest)
  pure (⟨path, key, item⟩, rest)

/-- Read the items of an array after its bracket or a comma; a comma may follow the last item. -/
def readItems (value : Reader Item) : (fuel : Nat) → Reader (List Item)
  | 0 => fun _ => none
  | fuel + 1 => fun input =>
    match skipFiller false input with
    | ']' :: rest => some ([], rest)
    | input => do
      let (item, rest) ← value input
      match skipFiller false rest with
      | ',' :: rest => do
        let (items, rest) ← readItems value fuel rest
        pure (item :: items, rest)
      | ']' :: rest => pure ([item], rest)
      | _ => none

/-- Read the assignments in braces, of which there is at least one. -/
def readAssignments (value : Reader Item) : (fuel : Nat) → Reader (List Assignment)
  | 0 => fun _ => none
  | fuel + 1 => fun input => do
    let (a, rest) ← readAssignment value input
    match skipBlanks rest with
    | ',' :: rest => do
      let (as, rest) ← readAssignments value fuel rest
      pure (a :: as, rest)
    | '\x7d' :: rest => pure ([a], rest)
    | _ => none

/-- Read a table in braces after the opening brace. -/
def readBraces (value : Reader Item) : Reader Item := fun input =>
  match skipBlanks input with
  | '\x7d' :: rest => some (.braces [], rest)
  | input => do
    let (as, rest) ← readAssignments value (input.length + 1) input
    let entries ← assignAll? as []
    pure (.braces entries, rest)

/-- Read a value that starts with a sign or a digit: a date, else a floating-point number, else
an integer. -/
def readNumeric : Reader Item := fun input =>
  match readDateTime input with
  | some ((), rest) =>
    some (.dateTime (String.ofList (input.take (input.length - rest.length))), rest)
  | none =>
    match readFloat input with
    | some (f, rest) => some (.float f, rest)
    | none => (readInteger input).map fun r => (.integer r.1, r.2)

/-- Read a value that holds no other values. -/
def readScalar : Reader Item
  | 't' :: 'r' :: 'u' :: 'e' :: rest => some (.boolean true, rest)
  | 'f' :: 'a' :: 'l' :: 's' :: 'e' :: rest => some (.boolean false, rest)
  | '\x22' :: rest => (readQuoted ('\x22' :: rest)).map fun r => (.string (String.ofList r.1), r.2)
  | '\x27' :: rest => (readQuoted ('\x27' :: rest)).map fun r => (.string (String.ofList r.1), r.2)
  | input => readNumeric input

/-- Read a value in which arrays and braces nest at most as deep as there is room. -/
def readValue : (room : Nat) → Reader Item
  | 0 => fun input =>
    match input with
    | '[' :: _ => none
    | '\x7b' :: _ => none
    | input => readScalar input
  | room + 1 => fun input =>
    match input with
    | '[' :: rest =>
      (readItems (readValue room) (rest.length + 1) rest).map fun r => (.array r.1, r.2)
    | '\x7b' :: rest => readBraces (readValue room) rest
    | input => readScalar input

/-- What one line of a document says. -/
inductive Statement where
  | assignment (a : Assignment)
  | header (path : List String) (key : String) (isElement : Bool)

/-- Read a header after its first bracket. -/
def readHeader : Reader Statement
  | '[' :: rest => do
    let ((path, key), rest) ← readKey rest
    let ((), rest) ← char ']' rest
    let ((), rest) ← char ']' rest
    pure (.header path key true, rest)
  | rest => do
    let ((path, key), rest) ← readKey rest
    let ((), rest) ← char ']' rest
    pure (.header path key false, rest)

/-- Read a header or an assignment. -/
def readStatement : Reader Statement
  | '[' :: rest => readHeader rest
  | input => (readAssignment (readValue nestingLimit) input).map fun r => (.assignment r.1, r.2)

/-- Whether nothing but a comment or a line end stands here. -/
def isIdle : List Char → Bool
  | '#' :: _ => true
  | input => startsNewline input

/-- Read the statements of a document. Every line takes at least one character, so the length
of the input is enough fuel. -/
def readStatements : (fuel : Nat) → List Char → Option (List Statement)
  | 0, _ => none
  | fuel + 1, input =>
    match skipBlanks input with
    | [] => some []
    | input =>
      if isIdle input then do
        let rest ← endLine? input
        readStatements fuel rest
      else do
        let (s, rest) ← readStatement input
        let rest ← endLine? rest
        let statements ← readStatements fuel rest
        pure (s :: statements)

/-- The assignments before the first header, and the sections. -/
def sections : List Statement → List Assignment × List Section
  | [] => ([], [])
  | .assignment a :: rest =>
    let (top, tail) := sections rest
    (a :: top, tail)
  | .header path key isElement :: rest =>
    let (top, tail) := sections rest
    ([], ⟨path, key, isElement, top⟩ :: tail)

/-- Add sections in order. -/
def addSections? : List Section → Entries → Option Entries
  | [], entries => some entries
  | s :: rest, entries => do
    let entries ← s.addTo? entries
    addSections? rest entries

/-- Build the table of a document from its statements. -/
def build? (statements : List Statement) : Option Entries := do
  let (top, tail) := sections statements
  let entries ← assignAll? top []
  addSections? tail entries

/-- Skip the mark of the byte order that may open a document. -/
def skipMark : List Char → List Char
  | c :: rest => if c.toNat = 0xfeff then rest else c :: rest
  | [] => []

/-- Read a document. -/
def read? (document : String) : Option Entries := do
  let input := skipMark document.toList
  let statements ← readStatements (input.length + 1) input
  build? statements

end BranchSync.Toml
