import BranchSync.Text.Scan
import BranchSync.Toml.Lexical

/-!
# Reading quoted texts

TOML quotes a text in four ways: between double quotes, where a backslash escapes, between
single quotes, where nothing does, and between three of either, where the text may span lines.
Each reader takes the input after the opening quotes and returns the quoted characters with
what follows the closing quotes.
-/

namespace BranchSync.Toml

/-- Quoted characters with the rest of the input. -/
abbrev Quotation := Option (List Char × List Char)

/-- Put a character before the quoted ones. -/
def Quotation.push (c : Char) (q : Quotation) : Quotation :=
  q.map fun r => (c :: r.1, r.2)

/-- Put a character, if there is one, before the quoted ones. -/
def Quotation.push? (c : Option Char) (q : Quotation) : Quotation :=
  c.bind fun c => q.push c

/-- The character that a letter after a backslash stands for. -/
def shortEscape? (c : Char) : Option Char :=
  if c = 'b' then some '\x08'
  else if c = 't' then some '\t'
  else if c = 'n' then some '\n'
  else if c = 'f' then some '\x0c'
  else if c = 'r' then some '\r'
  else if c = '\x22' then some '\x22'
  else if c = '\\' then some '\\'
  else none

/-- The character with the given hexadecimal number, unless a digit is none or the number is
no character. -/
def numericEscape? (digits : List Char) : Option Char :=
  if digits.all (Text.Scan.isDigit 16) then
    let n := Text.Scan.numberOf 16 digits
    if n.isValidChar then some (Char.ofNat n) else none
  else none

/-- Read up to a closing double quote. -/
def readBasic : List Char → Quotation
  | [] => none
  | '\\' :: 'u' :: a :: b :: c :: d :: rest =>
    (readBasic rest).push? (numericEscape? [a, b, c, d])
  | '\\' :: 'U' :: a :: b :: c :: d :: e :: f :: g :: h :: rest =>
    (readBasic rest).push? (numericEscape? [a, b, c, d, e, f, g, h])
  | '\\' :: c :: rest => (readBasic rest).push? (shortEscape? c)
  | c :: rest =>
    if c = '\x22' then some ([], rest)
    else if isBasicChar c then (readBasic rest).push c
    else none

/-- Read up to a closing single quote. -/
def readLiteral : List Char → Quotation
  | [] => none
  | c :: rest =>
    if c = '\x27' then some ([], rest)
    else if isLiteralChar c then (readLiteral rest).push c
    else none

/-- The end of a text between three quotes, after these three: up to two more quotes belong to
the text. -/
def closeLong (quote : Char) : List Char → Quotation
  | a :: b :: rest =>
    if a = quote ∧ b = quote then some ([quote, quote], rest)
    else if a = quote then some ([quote], b :: rest)
    else some ([], a :: b :: rest)
  | [a] => if a = quote then some ([quote], []) else some ([], [a])
  | [] => some ([], [])

/-- Where a reader of a long text is: in the text, behind a backslash that has to be the last
visible character of its line, or at the blanks and line ends that such a backslash removes. -/
inductive LongMode where
  | text
  | pending
  | skipping
  deriving DecidableEq, Repr

/-- Read up to three closing double quotes. -/
def readLongBasic : LongMode → List Char → Quotation
  | _, [] => none
  | .pending, '\r' :: '\n' :: rest => readLongBasic .skipping rest
  | .pending, c :: rest =>
    if isBlank c then readLongBasic .pending rest
    else if c = '\n' then readLongBasic .skipping rest
    else none
  | .skipping, '\r' :: '\n' :: rest => readLongBasic .skipping rest
  | .text, '\r' :: '\n' :: rest => (readLongBasic .text rest).push '\n'
  | _, '\x22' :: '\x22' :: '\x22' :: rest => closeLong '\x22' rest
  | _, '\\' :: 'u' :: a :: b :: c :: d :: rest =>
    (readLongBasic .text rest).push? (numericEscape? [a, b, c, d])
  | _, '\\' :: 'U' :: a :: b :: c :: d :: e :: f :: g :: h :: rest =>
    (readLongBasic .text rest).push? (numericEscape? [a, b, c, d, e, f, g, h])
  | _, '\\' :: '\r' :: '\n' :: rest => readLongBasic .skipping rest
  | _, '\\' :: c :: rest =>
    if isBlank c then readLongBasic .pending rest
    else if c = '\n' then readLongBasic .skipping rest
    else (readLongBasic .text rest).push? (shortEscape? c)
  | mode, c :: rest =>
    if mode = .skipping ∧ (isBlank c ∨ c = '\n') then readLongBasic .skipping rest
    else if c = '\n' ∨ c = '\x22' ∨ isBasicChar c then (readLongBasic .text rest).push c
    else none

/-- Read up to three closing single quotes. -/
def readLongLiteral : List Char → Quotation
  | [] => none
  | '\x27' :: '\x27' :: '\x27' :: rest => closeLong '\x27' rest
  | '\r' :: '\n' :: rest => (readLongLiteral rest).push '\n'
  | c :: rest =>
    if c = '\n' ∨ c = '\x27' ∨ isLiteralChar c then (readLongLiteral rest).push c
    else none

/-- Skip the line end that may follow three opening quotes. -/
def skipFirstNewline (input : List Char) : List Char :=
  (afterNewline? input).getD input

/-- Read a text in any of the four quotations, from its opening quotes on. -/
def readQuoted : List Char → Quotation
  | '\x22' :: '\x22' :: '\x22' :: rest => readLongBasic .text (skipFirstNewline rest)
  | '\x27' :: '\x27' :: '\x27' :: rest => readLongLiteral (skipFirstNewline rest)
  | '\x22' :: rest => readBasic rest
  | '\x27' :: rest => readLiteral rest
  | _ => none

end BranchSync.Toml
