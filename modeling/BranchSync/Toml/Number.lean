import BranchSync.Text.Scan

/-!
# Numbers and dates of a TOML document

Integers are decimal with an optional sign, or hexadecimal, octal or binary with a mark and no
sign; single underscores may stand between digits, and the value has to fit 64 bits with sign.
A decimal with a fraction or an exponent is a floating-point number, which may not be so large
that it rounds to infinity. Dates and times have a fixed number of digits and have to exist.
-/

namespace BranchSync.Toml

open Text.Scan

/-- Put a digit before the digits that were read. -/
def pushDigit (c : Char) (r : Option (List Char × List Char)) : Option (List Char × List Char) :=
  r.map fun r => (c :: r.1, r.2)

/-- The digits after the first one. An underscore has to stand between two digits. -/
def moreDigits (base : Nat) : Reader (List Char)
  | [] => some ([], [])
  | '_' :: c :: rest => if isDigit base c then pushDigit c (moreDigits base rest) else none
  | c :: rest =>
    if isDigit base c then pushDigit c (moreDigits base rest)
    else if c = '_' then none
    else some ([], c :: rest)

/-- One or more digits with single underscores between them. -/
def digits (base : Nat) : Reader (List Char)
  | [] => none
  | c :: rest => if isDigit base c then pushDigit c (moreDigits base rest) else none

/-- Decimal digits without leading zeros. -/
def decimalDigits : Reader (List Char)
  | '0' :: rest => some (['0'], rest)
  | input => digits 10 input

/-- An optional sign; the answer tells whether it is a minus. -/
def sign : List Char → Bool × List Char
  | '-' :: rest => (true, rest)
  | '+' :: rest => (false, rest)
  | input => (false, input)

/-- The least number that is too large for an integer, which has 64 bits with a sign. -/
def integerBound : Nat := Nat.pow 2 63

/-- Read an unsigned integer of a base other than ten, after its mark. -/
def readRadix (base : Nat) : Reader Int := fun input => do
  let (ds, rest) ← digits base input
  let n := numberOf base ds
  if n < integerBound then some (Int.ofNat n, rest) else none

/-- Read a decimal integer. -/
def readDecimal : Reader Int := fun input => do
  let (negative, input) := sign input
  let (ds, rest) ← decimalDigits input
  let n := numberOf 10 ds
  if negative then
    if n ≤ integerBound then some (-Int.ofNat n, rest) else none
  else if n < integerBound then some (Int.ofNat n, rest)
  else none

/-- Read an integer. -/
def readInteger : Reader Int
  | '0' :: 'x' :: rest => readRadix 16 rest
  | '0' :: 'o' :: rest => readRadix 8 rest
  | '0' :: 'b' :: rest => readRadix 2 rest
  | input => readDecimal input

/-- A floating-point number as it was written. -/
inductive FloatText where
  /-- The decimal `mantissa * 10 ^ exponent`. -/
  | decimal (negative : Bool) (mantissa : Nat) (exponent : Int)
  | infinity (negative : Bool)
  | nan
  deriving DecidableEq, Repr

/-- The least number that rounds to infinity in 64-bit floating point. -/
def overflowBound : Nat := Nat.pow 2 1024 - Nat.pow 2 970

/-- Whether `mantissa * 10 ^ exponent` rounds to infinity. Its number of digits before the
point decides but for a narrow range. -/
def overflows (mantissa : Nat) (exponent : Int) : Bool :=
  if mantissa = 0 then false else
  let magnitude := exponent + (Nat.toDigits 10 mantissa).length
  if magnitude > 310 then true
  else if magnitude < 300 then false
  else match exponent with
    | .ofNat k => decide (overflowBound ≤ mantissa * Nat.pow 10 k)
    | .negSucc k => decide (overflowBound * Nat.pow 10 (k + 1) ≤ mantissa)

/-- Read an exponent. -/
def readExponent : Reader Int
  | [] => none
  | c :: rest =>
    if c = 'e' ∨ c = 'E' then do
      let (negative, rest) := sign rest
      let (ds, rest) ← digits 10 rest
      let n := Int.ofNat (numberOf 10 ds)
      pure (if negative then -n else n, rest)
    else none

/-- Read what makes a decimal a floating-point number: a fraction, an exponent or both. The
answer is the digits after the point and the exponent. -/
def readTail : Reader (List Char × Int)
  | '.' :: rest => do
    let (ds, rest) ← digits 10 rest
    match readExponent rest with
    | some (e, rest) => pure ((ds, e), rest)
    | none => pure ((ds, 0), rest)
  | input => do
    let (e, rest) ← readExponent input
    pure (([], e), rest)

/-- Read a finite floating-point number after its sign. -/
def readFinite (negative : Bool) : Reader FloatText := fun input => do
  let (whole, rest) ← decimalDigits input
  let ((fraction, e), rest) ← readTail rest
  let mantissa := numberOf 10 (whole ++ fraction)
  let exponent := e - fraction.length
  if !negative && overflows mantissa exponent then none
  else pure (.decimal negative mantissa exponent, rest)

/-- Read infinity or the absence of a number, after the sign. -/
def readSpecial (negative : Bool) : Reader FloatText
  | 'i' :: 'n' :: 'f' :: rest => some (.infinity negative, rest)
  | 'n' :: 'a' :: 'n' :: rest => some (.nan, rest)
  | _ => none

/-- Read a floating-point number. -/
def readFloat : Reader FloatText := fun input =>
  let (negative, input) := sign input
  (readFinite negative input).or (readSpecial negative input)

/-- Read exactly two digits. -/
def twoDigits : Reader Nat
  | a :: b :: rest =>
    if isDigit 10 a ∧ isDigit 10 b then some (numberOf 10 [a, b], rest) else none
  | _ => none

/-- Read exactly four digits. -/
def fourDigits : Reader Nat := fun input => do
  let (high, rest) ← twoDigits input
  let (low, rest) ← twoDigits rest
  pure (high * 100 + low, rest)

/-- The number of days of a month. -/
def daysOfMonth (year month : Nat) : Nat :=
  if month = 2 then
    if year % 4 = 0 ∧ (year % 100 ≠ 0 ∨ year % 400 = 0) then 29 else 28
  else if month = 4 ∨ month = 6 ∨ month = 9 ∨ month = 11 then 30
  else 31

/-- Read over a date that exists. -/
def readDate : Reader Unit := fun input => do
  let (year, rest) ← fourDigits input
  let ((), rest) ← char '-' rest
  let (month, rest) ← twoDigits rest
  let ((), rest) ← char '-' rest
  let (day, rest) ← twoDigits rest
  if 1 ≤ month ∧ month ≤ 12 ∧ 1 ≤ day ∧ day ≤ daysOfMonth year month then some ((), rest)
  else none

/-- Skip the fraction of a second, if there is one. -/
def skipFraction : List Char → List Char
  | '.' :: c :: rest =>
    if isDigit 10 c then rest.dropWhile (isDigit 10) else '.' :: c :: rest
  | input => input

/-- Read over a time of day; the sixtieth second is a leap second. -/
def readTime : Reader Unit := fun input => do
  let (hour, rest) ← twoDigits input
  let ((), rest) ← char ':' rest
  let (minute, rest) ← twoDigits rest
  let ((), rest) ← char ':' rest
  let (second, rest) ← twoDigits rest
  if hour ≤ 23 ∧ minute ≤ 59 ∧ second ≤ 60 then some ((), skipFraction rest) else none

/-- Read over the distance of a time zone. -/
def readOffset : Reader Unit
  | [] => none
  | c :: rest =>
    if c = 'Z' ∨ c = 'z' then some ((), rest)
    else if c = '+' ∨ c = '-' then do
      let (hour, rest) ← twoDigits rest
      let ((), rest) ← char ':' rest
      let (minute, rest) ← twoDigits rest
      if hour ≤ 23 ∧ minute ≤ 59 then some ((), rest) else none
    else none

/-- What follows a time of day with its zone, if one follows a date. -/
def afterTimeOfDate : List Char → List Char
  | c :: rest =>
    if c = 'T' ∨ c = 't' ∨ c = ' ' then
      match readTime rest with
      | none => c :: rest
      | some ((), rest) =>
        match readOffset rest with
        | none => rest
        | some ((), rest) => rest
    else c :: rest
  | [] => []

/-- Read over a date, a date with a time, or a time. -/
def readDateTime : Reader Unit := fun input =>
  match readDate input with
  | some ((), rest) => some ((), afterTimeOfDate rest)
  | none => readTime input

end BranchSync.Toml
