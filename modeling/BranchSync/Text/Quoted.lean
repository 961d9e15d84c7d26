/-!
# Quoted display of characters and texts

A diagnostic shows a character between single quotes and a text between double quotes, with
backslash escapes for what would otherwise be invisible or would end the quotation. The rule
covers the ASCII and Latin-1 characters; every later character is shown as it is.
-/

namespace BranchSync.Text.Quoted

/-- Whether a character below U+0100 has no visible form: a control, the no-break space or the
soft hyphen. -/
def isInvisible (c : Char) : Bool :=
  c.toNat < 0x20 || (0x7f ≤ c.toNat && c.toNat ≤ 0xa0) || c.toNat == 0xad

/-- The escaped form of a character inside a quotation delimited by `quote`. -/
def escape (quote c : Char) : List Char :=
  if c = '\x00' then ['\\', '0']
  else if c = '\t' then ['\\', 't']
  else if c = '\r' then ['\\', 'r']
  else if c = '\n' then ['\\', 'n']
  else if c = '\\' then ['\\', '\\']
  else if c = quote then ['\\', c]
  else if isInvisible c then ['\\', 'u', '\x7b'] ++ Nat.toDigits 16 c.toNat ++ ['\x7d']
  else [c]

/-- A character between single quotes. -/
def char (c : Char) : String :=
  String.ofList ('\x27' :: escape '\x27' c ++ ['\x27'])

/-- A text between double quotes. -/
def text (s : String) : String :=
  String.ofList ('\x22' :: s.toList.flatMap (escape '\x22') ++ ['\x22'])

end BranchSync.Text.Quoted
