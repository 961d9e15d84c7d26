/-!
# Session ids

A session id is a 128-bit number that sorts by the time of its making: 48 bits of milliseconds,
the version 7, twelve free bits, the variant mark, and 62 free bits. The free bits come from
outside and make ids of the same millisecond differ.
-/

namespace BranchSync

/-- A session id as a number below 2^128. -/
structure SessionId where
  value : Nat
  deriving DecidableEq, Repr

namespace SessionId

/-- The version that marks time-ordered ids. -/
def timeOrdered : Nat := 7

/-- The id for a time in milliseconds and 74 free bits. -/
def new (millis free : Nat) : SessionId :=
  let high := free / Nat.pow 2 62 % Nat.pow 2 12
  let low := free % Nat.pow 2 62
  ⟨millis % Nat.pow 2 48 * Nat.pow 2 80 + timeOrdered * Nat.pow 2 76 + high * Nat.pow 2 64 +
    2 * Nat.pow 2 62 + low⟩

/-- The version of an id. -/
def version (id : SessionId) : Nat :=
  id.value / Nat.pow 2 76 % 16

end SessionId

end BranchSync
