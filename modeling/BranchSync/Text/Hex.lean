import BranchSync.Text.Octets
import BranchSync.Text.Quoted

/-!
# Hexadecimal text

Octets are written as two lowercase digits each, high half first. The reader accepts both
cases of the letters, works on the octets of the text, and reports either an odd number of
octets or the first octet that is no digit. Reading back what was written gives the same
octets.
-/

namespace BranchSync.Text.Hex

/-- Why a text is not a hexadecimal octet string. -/
inductive Error where
  | oddLength
  | badDigit (octet : UInt8) (index : Nat)
  deriving DecidableEq, Repr

/-- The wording of a refusal; a bad octet is shown as the Latin-1 character it stands for. -/
def Error.message : Error → String
  | .oddLength => "Odd number of digits"
  | .badDigit octet index =>
    s!"Invalid character {Quoted.char (Char.ofNat octet.toNat)} at position {index}"

/-- The value of a hexadecimal digit of either case, given as an octet. -/
def digitValue? (b : UInt8) : Option Nat :=
  let n := b.toNat
  if 48 ≤ n ∧ n ≤ 57 then some (n - 48)
  else if 97 ≤ n ∧ n ≤ 102 then some (n - 87)
  else if 65 ≤ n ∧ n ≤ 70 then some (n - 55)
  else none

/-- The lowercase digit of a value below sixteen. -/
def digit (n : Nat) : Char :=
  if n < 10 then Char.ofNat (48 + n) else Char.ofNat (87 + n)

/-- The two digits of an octet, high half first. -/
def encodeOctet (b : UInt8) : List Char :=
  [digit (b.toNat / 16), digit (b.toNat % 16)]

/-- Octets as lowercase hexadecimal text. -/
def encode (bytes : List UInt8) : String :=
  String.ofList (bytes.flatMap encodeOctet)

/-- Read digits two at a time; `index` is the position of the first of them. -/
def decodePairs (index : Nat) : List UInt8 → Except Error (List UInt8)
  | [] => .ok []
  | [_] => .error .oddLength
  | high :: low :: rest =>
    match digitValue? high, digitValue? low with
    | none, _ => .error (.badDigit high index)
    | some _, none => .error (.badDigit low (index + 1))
    | some h, some l => do
      let tail ← decodePairs (index + 2) rest
      pure (UInt8.ofNat (16 * h + l) :: tail)

/-- Read a hexadecimal text. An odd number of octets is reported before any bad digit. -/
def decode (s : String) : Except Error (List UInt8) :=
  let bytes := octets s
  if bytes.length % 2 = 1 then .error .oddLength else decodePairs 0 bytes

end BranchSync.Text.Hex
