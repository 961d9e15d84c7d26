/-!
# Scanning texts

Readers of small formats take the characters that are left and return what they read together
with the rest, or nothing when they do not apply. Numbers are read as the longest run of
digits of a base and then judged as a whole: by how many digits they have, by a leading zero,
and by their value.
-/

namespace BranchSync.Text.Scan

variable {α β : Type}

/-- A reader of a prefix of the input. -/
abbrev Reader (α : Type) := List Char → Option (α × List Char)

/-- Read one given character. -/
def char (c : Char) : Reader Unit
  | [] => none
  | x :: rest => if x = c then some ((), rest) else none

/-- The value of a digit in a base up to sixteen. -/
def digitValue? (base : Nat) (c : Char) : Option Nat :=
  let n := c.toNat
  let value :=
    if 48 ≤ n ∧ n ≤ 57 then some (n - 48)
    else if 97 ≤ n ∧ n ≤ 102 then some (n - 87)
    else if 65 ≤ n ∧ n ≤ 70 then some (n - 55)
    else none
  value.filter (· < base)

/-- Whether a character is a digit of a base. -/
def isDigit (base : Nat) (c : Char) : Bool :=
  (digitValue? base c).isSome

/-- The number that digits stand for, the most significant first. -/
def numberOf (base : Nat) (digits : List Char) : Nat :=
  digits.foldl (fun n c => n * base + (digitValue? base c).getD 0) 0

/-- What a written number may look like. -/
structure NumberForm where
  base : Nat
  maxDigits : Option Nat
  leadingZeros : Bool
  bound : Nat

/-- Whether a run of digits is a number of the given form. -/
def NumberForm.accepts (form : NumberForm) (digits : List Char) : Bool :=
  !digits.isEmpty &&
    (match form.maxDigits with
      | none => true
      | some max => decide (digits.length ≤ max)) &&
    (form.leadingZeros || digits.length == 1 || digits.head? != some '0') &&
    decide (numberOf form.base digits < form.bound)

/-- Read the longest run of digits as a number of the given form. -/
def number (form : NumberForm) : Reader Nat := fun input =>
  let digits := input.takeWhile (isDigit form.base)
  if form.accepts digits then
    some (numberOf form.base digits, input.dropWhile (isDigit form.base))
  else none

end BranchSync.Text.Scan
