import BranchSync.Payload.Codec

/-!
# Collecting a payload

The text of a pack element arrives in pieces. A collector serves one element: it is idle until
the element opens, then gathers text, and is done once the element closes. With a size limit
it counts every octet but stops storing text when the limit is passed, so that it never holds
more than the limit.

A collector counts octets in a machine word, and starts again at zero when the word overflows. The
text of a document has fewer octets than a word can count, since the document is in memory as a whole,
so a collector that is fed from a document may as well count in natural numbers. Ways to count are
therefore a parameter.
-/

namespace BranchSync

/-- A way to count octets. The count stands for the number of octets as long as that number fits;
beyond, nothing is said about it. -/
class OctetCount (κ : Type) where
  /-- The count of nothing. -/
  zero : κ
  /-- The count after further octets. -/
  add : κ → Nat → κ
  /-- The number that a count stands for. -/
  toNat : κ → Nat
  /-- Which numbers fit. -/
  Fits : Nat → Prop
  toNat_zero : toNat zero = 0
  toNat_add {seen : κ} {octets : Nat} :
    Fits (toNat seen + octets) → toNat (add seen octets) = toNat seen + octets
  fits_of_le {m n : Nat} : m ≤ n → Fits n → Fits m

/-- Natural numbers count without a bound. -/
instance : OctetCount Nat where
  zero := 0
  add seen octets := seen + octets
  toNat seen := seen
  Fits _ := True
  toNat_zero := rfl
  toNat_add _ := rfl
  fits_of_le _ h := h

/-- A machine word counts up to its size. -/
instance : OctetCount UInt64 where
  zero := 0
  add seen octets := seen + .ofNat octets
  toNat seen := seen.toNat
  Fits n := n < UInt64.size
  toNat_zero := rfl
  toNat_add := by
    intro seen octets h
    rw [UInt64.toNat_add, UInt64.toNat_ofNat', Nat.add_mod_mod, Nat.mod_eq_of_lt h]
  fits_of_le := Nat.lt_of_le_of_lt

/-- Where a collector is in the life of its element. -/
inductive CollectorPhase (κ : Type) where
  | idle
  | collecting (seen : κ) (stored : String)
  | done
  deriving DecidableEq, Repr

/-- A collector with an optional limit on the octets of encoded text. -/
structure Collector (κ : Type := UInt64) where
  limit : Option UInt64
  phase : CollectorPhase κ
  deriving DecidableEq, Repr

namespace Collector

/-- Whether a size stays within the limit. -/
def admits (limit : Option UInt64) (size : Nat) : Bool :=
  match limit with
  | none => true
  | some max => decide (size ≤ max.toNat)

/-- What the gathered text amounts to: too large, or its octets, or not base64. -/
def outcome (limit : Option UInt64) (seen : Nat) (stored : String) :
    Except ProtocolError (List UInt8) :=
  match limit with
  | none => Payload.decode stored
  | some max =>
    if seen > max.toNat then .error (.payloadTooLarge seen max.toNat) else Payload.decode stored

variable {κ : Type}

/-- A collector that waits for its element. -/
def new (limit : Option UInt64) : Collector κ := ⟨limit, .idle⟩

/-- Whether text is being gathered. -/
def isCollecting (c : Collector κ) : Bool :=
  match c.phase with
  | .collecting _ _ => true
  | _ => false

variable [OctetCount κ]

/-- The element opens; the answer tells whether this collector serves it. -/
def begin (c : Collector κ) : Bool × Collector κ :=
  match c.phase with
  | .idle => (true, { c with phase := .collecting OctetCount.zero "" })
  | _ => (false, c)

/-- A piece of text arrives; outside the element it is dropped. -/
def pushText (c : Collector κ) (text : String) : Collector κ :=
  match c.phase with
  | .collecting seen stored =>
    let seen := OctetCount.add seen text.utf8ByteSize
    let room := admits c.limit (OctetCount.toNat seen)
    { c with phase := .collecting seen (if room then stored ++ text else stored) }
  | _ => c

/-- The element closes; nothing results unless text was being gathered. -/
def finish (c : Collector κ) : Option (Except ProtocolError (List UInt8)) × Collector κ :=
  match c.phase with
  | .collecting seen stored =>
    (some (outcome c.limit (OctetCount.toNat seen) stored), { c with phase := .done })
  | _ => (none, c)

end Collector

end BranchSync
