import BranchSync.Toml.Lexical

/-!
# Writing TOML documents

A document of simple values is written one assignment per line. A text is written in the
plainest quotation that needs no escapes: double quotes, single quotes, three double quotes,
three single quotes, in this order. When each of them would need escapes, double quotes are
used, three of them if the text has line ends. A text with line ends starts on a line of its
own.
-/

namespace BranchSync.Toml

/-- The length of the longest run of a character, where `current` is the length of the run that
the text starts in. -/
def longestRun (quote : Char) : (current : Nat) → List Char → Nat
  | current, [] => current
  | current, c :: rest =>
    if c = quote then longestRun quote (current + 1) rest
    else max current (longestRun quote 0 rest)

/-- A control character that no quotation can hold without an escape. -/
def isUnquotable (c : Char) : Bool :=
  (c.toNat < 0x20 && c != '\t' && c != '\n') || c.toNat == 0x7f

/-- The ways to quote a text. -/
inductive QuoteStyle where
  | basic
  | literal
  | longBasic
  | longLiteral
  deriving DecidableEq, Repr

/-- Whether a text can stand in a quotation without escapes; a tab between double quotes does
not count as one. -/
def QuoteStyle.fits (style : QuoteStyle) (text : List Char) : Bool :=
  !text.any isUnquotable &&
    match style with
    | .basic => !text.any fun c => c == '\\' || c == '\x22' || c == '\n'
    | .literal => !text.any fun c => c == '\x27' || c == '\n'
    | .longBasic => !text.any (· == '\\') && decide (longestRun '\x22' 0 text ≤ 2)
    | .longLiteral => decide (longestRun '\x27' 0 text ≤ 2)

/-- The quotation that a text is written in. -/
def QuoteStyle.choose (text : List Char) : QuoteStyle :=
  if fits .basic text then .basic
  else if fits .literal text then .literal
  else if fits .longBasic text then .longBasic
  else if fits .longLiteral text then .longLiteral
  else if text.any (· == '\n') then .longBasic
  else .basic

/-- An uppercase hexadecimal digit. -/
def upperDigit (n : Nat) : Char :=
  if n < 10 then Char.ofNat (48 + n) else Char.ofNat (55 + n)

/-- The escape of a control character by its number, in four digits. -/
def numericEscape (c : Char) : List Char :=
  ['\\', 'u', '0', '0', upperDigit (c.toNat / 16), upperDigit (c.toNat % 16)]

/-- A character other than a quote or a line end, between double quotes. -/
def escapeCommon (c : Char) : List Char :=
  if c = '\x08' then ['\\', 'b']
  else if c = '\t' then ['\\', 't']
  else if c = '\x0c' then ['\\', 'f']
  else if c = '\r' then ['\\', 'r']
  else if c = '\\' then ['\\', '\\']
  else if c.toNat < 0x20 ∨ c.toNat = 0x7f then numericEscape c
  else [c]

/-- A character between double quotes. -/
def escapeBasic (c : Char) : List Char :=
  if c = '\x22' then ['\\', '\x22']
  else if c = '\n' then ['\\', 'n']
  else escapeCommon c

/-- The characters of a text between three double quotes. Of three quotes in a row the third is
escaped; `quotes` is the number of quotes just written. -/
def escapeLong : (quotes : Nat) → List Char → List Char
  | _, [] => []
  | quotes, c :: rest =>
    if c = '\x22' then
      if quotes < 2 then '\x22' :: escapeLong (quotes + 1) rest
      else '\\' :: '\x22' :: escapeLong 0 rest
    else if c = '\n' then '\n' :: escapeLong 0 rest
    else escapeCommon c ++ escapeLong 0 rest

/-- The line end that follows three opening quotes if the text has line ends. -/
def openingNewline (text : List Char) : List Char :=
  if text.any (· == '\n') then ['\n'] else []

/-- A text in a given quotation. -/
def quoteAs (style : QuoteStyle) (text : List Char) : List Char :=
  match style with
  | .basic => '\x22' :: text.flatMap escapeBasic ++ ['\x22']
  | .literal => '\x27' :: text ++ ['\x27']
  | .longBasic =>
    let marks := ['\x22', '\x22', '\x22']
    marks ++ openingNewline text ++ escapeLong 0 text ++ marks
  | .longLiteral =>
    let marks := ['\x27', '\x27', '\x27']
    marks ++ openingNewline text ++ text ++ marks

/-- A quoted text. -/
def quote (text : String) : String :=
  String.ofList (quoteAs (QuoteStyle.choose text.toList) text.toList)

/-- A value that fits on one line, line ends within a quotation apart. -/
inductive Scalar where
  | string (value : String)
  | integer (value : Nat)
  | boolean (value : Bool)
  deriving DecidableEq, Repr

/-- A value as it is written. -/
def Scalar.render : Scalar → String
  | .string value => quote value
  | .integer value => toString value
  | .boolean value => if value then "true" else "false"

/-- An assignment to a key without quotes, as a line. -/
def renderLine (key : String) (value : Scalar) : String :=
  key ++ " = " ++ value.render ++ "\n"

/-- Assignments as a document. -/
def render (entries : List (String × Scalar)) : String :=
  String.join (entries.map fun e => renderLine e.1 e.2)

end BranchSync.Toml
