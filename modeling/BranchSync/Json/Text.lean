import BranchSync.Json.Value
import BranchSync.Text.Scan

/-!
# JSON texts

Reading and writing documents as text. An integer is a number without fraction and exponent;
the integer minus zero has no place among the integers and counts as a fraction. Of fields with
equal names in one object the last one stands.
-/

namespace BranchSync.Json

open Text.Scan

/-- Skip the blanks between tokens. -/
def skipBlanks (input : List Char) : List Char :=
  input.dropWhile fun c => c == ' ' || c == '\t' || c == '\n' || c == '\r'

/-- The code unit written as four hexadecimal digits. -/
def codeUnit? (a b c d : Char) : Option Nat :=
  if [a, b, c, d].all (isDigit 16) then some (numberOf 16 [a, b, c, d]) else none

/-- Whether a code unit is the first half of a pair. -/
def isFirstHalf (unit : Nat) : Bool :=
  0xd800 ≤ unit && unit < 0xdc00

/-- The character for two code units that form a pair. -/
def pairedChar? (first second : Nat) : Option Char :=
  if 0xdc00 ≤ second ∧ second < 0xe000 then
    some (Char.ofNat (0x10000 + (first - 0xd800) * 0x400 + (second - 0xdc00)))
  else none

/-- The character for a code unit that stands alone. -/
def singleChar? (unit : Nat) : Option Char :=
  if unit.isValidChar then some (Char.ofNat unit) else none

/-- The character that a letter after a backslash stands for. -/
def escapedChar? (c : Char) : Option Char :=
  if c = 'n' then some '\n'
  else if c = 't' then some '\t'
  else if c = 'r' then some '\r'
  else if c = 'b' then some '\x08'
  else if c = 'f' then some '\x0c'
  else if c = '/' ∨ c = '\\' ∨ c = '\x22' then some c
  else none

/-- Put a character before those that were read. -/
def pushChar (c : Char) (r : Option (List Char × List Char)) : Option (List Char × List Char) :=
  r.map fun r => (c :: r.1, r.2)

/-- Read the characters of a string up to the closing quote. The first half of a pair of code
units is kept until the second half is read, which has to follow at once. -/
def readChars : (first : Option Nat) → List Char → Option (List Char × List Char)
  | _, [] => none
  | none, '\\' :: 'u' :: a :: b :: c :: d :: rest => do
    let unit ← codeUnit? a b c d
    if isFirstHalf unit then readChars (some unit) rest
    else (singleChar? unit).bind fun single => pushChar single (readChars none rest)
  | some first, '\\' :: 'u' :: a :: b :: c :: d :: rest => do
    let second ← codeUnit? a b c d
    (pairedChar? first second).bind fun paired => pushChar paired (readChars none rest)
  | some _, _ => none
  | none, '\\' :: c :: rest =>
    (escapedChar? c).bind fun escaped => pushChar escaped (readChars none rest)
  | none, c :: rest =>
    if c = '\x22' then some ([], rest) else pushChar c (readChars none rest)

/-- Read a number. -/
def readNumber : Reader Json := fun input =>
  let isPart := fun c : Char =>
    c.isDigit || c == '-' || c == '+' || c == '.' || c == 'e' || c == 'E'
  let part := input.takeWhile isPart
  let rest := input.dropWhile isPart
  let (negative, ds) := match part with
    | '-' :: ds => (true, ds)
    | ds => (false, ds)
  if ds.isEmpty then none
  else if ds.all (isDigit 10) ∧ !(negative ∧ ds = ['0']) then
    let n := Int.ofNat (numberOf 10 ds)
    some (.integer (if negative then -n else n), rest)
  else some (.fraction (String.ofList part), rest)

/-- Put a field into an object, in place of one with the same name. -/
def putField (fields : List (String × Json)) (name : String) (value : Json) :
    List (String × Json) :=
  fields.filter (fun f => f.1 != name) ++ [(name, value)]

mutual

/-- Read a document; every step takes a character, so the length of the input is enough fuel. -/
def readDocument : (fuel : Nat) → List Char → Option (Json × List Char)
  | 0, _ => none
  | fuel + 1, input =>
    match skipBlanks input with
    | 'n' :: 'u' :: 'l' :: 'l' :: rest => some (.null, rest)
    | 't' :: 'r' :: 'u' :: 'e' :: rest => some (.bool true, rest)
    | 'f' :: 'a' :: 'l' :: 's' :: 'e' :: rest => some (.bool false, rest)
    | '\x22' :: rest => (readChars none rest).map fun r => (.string (String.ofList r.1), r.2)
    | '[' :: rest =>
      match skipBlanks rest with
      | ']' :: rest => some (.array [], rest)
      | rest => (readItems fuel rest).map fun r => (.array r.1, r.2)
    | '\x7b' :: rest =>
      match skipBlanks rest with
      | '\x7d' :: rest => some (.object [], rest)
      | rest => (readFields fuel [] rest).map fun r => (.object r.1, r.2)
    | input => readNumber input

/-- Read the items of an array, of which there is at least one. -/
def readItems : (fuel : Nat) → List Char → Option (List Json × List Char)
  | 0, _ => none
  | fuel + 1, input => do
    let (item, rest) ← readDocument fuel input
    match skipBlanks rest with
    | ',' :: rest => do
      let (items, rest) ← readItems fuel rest
      pure (item :: items, rest)
    | ']' :: rest => pure ([item], rest)
    | _ => none

/-- Read the fields of an object, of which there is at least one, after those read before. -/
def readFields : (fuel : Nat) → List (String × Json) → List Char →
    Option (List (String × Json) × List Char)
  | 0, _, _ => none
  | fuel + 1, fields, input =>
    match skipBlanks input with
    | '\x22' :: rest => do
      let (name, rest) ← readChars none rest
      let ((), rest) ← char ':' (skipBlanks rest)
      let (value, rest) ← readDocument fuel rest
      let fields := putField fields (String.ofList name) value
      match skipBlanks rest with
      | ',' :: rest => readFields fuel fields rest
      | '\x7d' :: rest => pure (fields, rest)
      | _ => none
    | _ => none

end

/-- Read a text that is a document and nothing else. -/
def read? (text : String) : Option Json :=
  let input := text.toList
  match readDocument (2 * input.length + 1) input with
  | some (document, rest) => if (skipBlanks rest).isEmpty then some document else none
  | none => none

/-- A character inside a written string. -/
def writeChar (c : Char) : List Char :=
  if c = '\x22' then ['\\', '\x22']
  else if c = '\\' then ['\\', '\\']
  else if c.toNat < 0x20 then
    let digits := Nat.toDigits 16 c.toNat
    '\\' :: 'u' :: (List.replicate (4 - digits.length) '0' ++ digits)
  else [c]

/-- A written string. -/
def writeString (s : String) : String :=
  String.ofList ('\x22' :: s.toList.flatMap writeChar ++ ['\x22'])

mutual

/-- A document as text, without blanks. -/
def write : Json → String
  | .null => "null"
  | .bool b => if b then "true" else "false"
  | .integer n => toString n
  | .fraction text => text
  | .string s => writeString s
  | .array items => "[" ++ String.intercalate "," (writeItems items) ++ "]"
  | .object fields => "\x7b" ++ String.intercalate "," (writeFields fields) ++ "\x7d"

/-- The items of an array as texts. -/
def writeItems : List Json → List String
  | [] => []
  | item :: rest => write item :: writeItems rest

/-- The fields of an object as texts. -/
def writeFields : List (String × Json) → List String
  | [] => []
  | (name, value) :: rest => (writeString name ++ ":" ++ write value) :: writeFields rest

end

end BranchSync.Json
