import BranchSync.Text.Octets

/-!
# Base64 text

Octets are written in groups of three as four symbols of the standard alphabet, with `=`
filling the last group. The reader takes either alphabet, one per text, and does not insist
on the filling: none, some or all of it may be present. It refuses symbols outside the
alphabet, filling in the wrong place, a lone last symbol, and unused low bits that are not
zero, and it reports the first offence by a fixed order.
-/

namespace BranchSync.Text.Base64

/-- The two alphabets; they differ in their last two symbols. -/
inductive Alphabet where
  | standard
  | urlSafe
  deriving DecidableEq, Repr

/-- Why a text is not base64. Octets and offsets are those of the text that was read. -/
inductive DecodeError where
  | invalidSymbol (octet : UInt8) (offset : Nat)
  | invalidLength (length : Nat)
  | invalidLastSymbol (octet : UInt8) (offset : Nat)
  deriving DecidableEq, Repr

/-- The wording of a refusal. -/
def DecodeError.message : DecodeError → String
  | .invalidSymbol octet offset => s!"Invalid symbol {octet.toNat}, offset {offset}."
  | .invalidLength length => s!"Invalid input length: {length}"
  | .invalidLastSymbol octet offset => s!"Invalid last symbol {octet.toNat}, offset {offset}."

/-- The octet that fills an incomplete last group. -/
def filler : UInt8 := 61

/-- The symbol for 62. -/
def Alphabet.symbol62 : Alphabet → UInt8
  | .standard => 43
  | .urlSafe => 45

/-- The symbol for 63. -/
def Alphabet.symbol63 : Alphabet → UInt8
  | .standard => 47
  | .urlSafe => 95

/-- The symbol, as an octet, of a six-bit value. -/
def Alphabet.symbol (a : Alphabet) (v : Nat) : UInt8 :=
  if v < 26 then UInt8.ofNat (65 + v)
  else if v < 52 then UInt8.ofNat (71 + v)
  else if v < 62 then UInt8.ofNat (v - 4)
  else if v = 62 then a.symbol62
  else a.symbol63

/-- The six-bit value of a symbol, if the alphabet has it. -/
def Alphabet.value? (a : Alphabet) (b : UInt8) : Option Nat :=
  let n := b.toNat
  if 65 ≤ n ∧ n ≤ 90 then some (n - 65)
  else if 97 ≤ n ∧ n ≤ 122 then some (n - 71)
  else if 48 ≤ n ∧ n ≤ 57 then some (n + 4)
  else if b = a.symbol62 then some 62
  else if b = a.symbol63 then some 63
  else none

/-- The symbols of an octet string, with the last group filled. -/
def encodeOctets : List UInt8 → List UInt8
  | [] => []
  | [x] =>
    let v := x.toNat
    [Alphabet.standard.symbol (v / 4), Alphabet.standard.symbol (v % 4 * 16), filler, filler]
  | [x, y] =>
    let v := x.toNat * 256 + y.toNat
    [Alphabet.standard.symbol (v / 1024), Alphabet.standard.symbol (v / 16 % 64),
      Alphabet.standard.symbol (v % 16 * 4), filler]
  | x :: y :: z :: rest =>
    let v := x.toNat * 65536 + y.toNat * 256 + z.toNat
    Alphabet.standard.symbol (v / 262144) :: Alphabet.standard.symbol (v / 4096 % 64) ::
      Alphabet.standard.symbol (v / 64 % 64) :: Alphabet.standard.symbol (v % 64) ::
      encodeOctets rest

/-- An octet string as base64 text in the standard alphabet. -/
def encode (bytes : List UInt8) : String :=
  String.ofList ((encodeOctets bytes).map fun b => Char.ofNat b.toNat)

/-- The value of the symbol found at `offset`. -/
def symbolAt (a : Alphabet) (offset : Nat) (b : UInt8) : Except DecodeError Nat :=
  match a.value? b with
  | some v => .ok v
  | none => .error (.invalidSymbol b offset)

/-- The three octets of a full group of four symbols. -/
def decodeGroup (a : Alphabet) (offset : Nat) (w x y z : UInt8) :
    Except DecodeError (List UInt8) := do
  let w ← symbolAt a offset w
  let x ← symbolAt a (offset + 1) x
  let y ← symbolAt a (offset + 2) y
  let z ← symbolAt a (offset + 3) z
  let v := w * 262144 + x * 4096 + y * 64 + z
  pure [UInt8.ofNat (v / 65536), UInt8.ofNat (v / 256 % 256), UInt8.ofNat (v % 256)]

/-- The values of consecutive symbols, the first of them at `offset`. -/
def symbolsFrom (a : Alphabet) (offset : Nat) : List UInt8 → Except DecodeError (List Nat)
  | [] => .ok []
  | b :: rest => do
    let v ← symbolAt a offset b
    let tail ← symbolsFrom a (offset + 1) rest
    pure (v :: tail)

/-- Check the filling of the last group: it may start only after two symbols and holds nothing
but filler. `offset` is the group's own and `count` the number of its symbols. -/
def checkFilling (offset count : Nat) (filling : List UInt8) : Except DecodeError Unit :=
  if filling ≠ [] ∧ (count < 2 ∨ filling.any (· ≠ filler)) then
    .error (.invalidSymbol filler (offset + count))
  else .ok ()

/-- The octets that two to four last symbols stand for; unused low bits have to be zero.
`last` is the octet of the last symbol and `lastOffset` its place. -/
def lastOctets (last : UInt8) (lastOffset : Nat) : List Nat → Except DecodeError (List UInt8)
  | [w, x, y, z] =>
    let v := w * 262144 + x * 4096 + y * 64 + z
    .ok [UInt8.ofNat (v / 65536), UInt8.ofNat (v / 256 % 256), UInt8.ofNat (v % 256)]
  | [w, x, y] =>
    if y % 4 ≠ 0 then .error (.invalidLastSymbol last lastOffset) else
    let v := w * 1024 + x * 16 + y / 4
    .ok [UInt8.ofNat (v / 256), UInt8.ofNat (v % 256)]
  | [w, x] =>
    if x % 16 ≠ 0 then .error (.invalidLastSymbol last lastOffset) else
    .ok [UInt8.ofNat (w * 4 + x / 16)]
  | _ => .error (.invalidLength (lastOffset + 1))

/-- The octets of the last group, which has at most four octets of text. -/
def decodeLast (a : Alphabet) (offset : Nat) (group : List UInt8) :
    Except DecodeError (List UInt8) := do
  let symbols := group.takeWhile (· ≠ filler)
  let filling := group.dropWhile (· ≠ filler)
  let values ← symbolsFrom a offset symbols
  checkFilling offset values.length filling
  if values.length < 2 then .error (.invalidLength (offset + values.length)) else
  lastOctets (symbols.getLastD 0) (offset + values.length - 1) values

/-- Read groups of four symbols; the last group, of one to four octets, may be incomplete or
filled. -/
def decodeGroups (a : Alphabet) (offset : Nat) : List UInt8 → Except DecodeError (List UInt8)
  | [] => .ok []
  | w :: x :: y :: z :: next :: rest => do
    let head ← decodeGroup a offset w x y z
    let tail ← decodeGroups a (offset + 4) (next :: rest)
    pure (head ++ tail)
  | group => decodeLast a offset group

/-- Read base64 text given as octets. A text that leaves one octet over, which is neither a
symbol nor filler, is reported by that octet before anything else. -/
def decode (a : Alphabet) (text : List UInt8) : Except DecodeError (List UInt8) :=
  match text.getLast? with
  | none => .ok []
  | some last =>
    if text.length % 4 = 1 ∧ last ≠ filler ∧ (a.value? last).isNone then
      .error (.invalidSymbol last (text.length - 1))
    else decodeGroups a 0 text

end BranchSync.Text.Base64
