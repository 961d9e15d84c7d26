import BranchSync.Proofs.Text.Ascii
import BranchSync.Text.Hex

/-!
# Reading back hexadecimal text

An octet is written as two digits, and the reader gets the octet back from them. So what is
written is read back, octet by octet.
-/

namespace BranchSync.Text.Hex

/-- The octet of a digit. -/
def digitOctet (n : Nat) : UInt8 :=
  UInt8.ofNat (digit n).toNat

/-- A digit is a single octet. -/
theorem utf8EncodeChar_digit {n : Nat} (h : n < 16) :
    String.utf8EncodeChar (digit n) = [digitOctet n] := by
  revert n
  decide

/-- A digit has the value that it was written for. -/
theorem digitValue?_digitOctet {n : Nat} (h : n < 16) : digitValue? (digitOctet n) = some n := by
  revert n
  decide

/-- The octets of what is written: two digits for each octet. -/
theorem octets_encode (bytes : List UInt8) :
    octets (encode bytes) =
      bytes.flatMap fun b => [digitOctet (b.toNat / 16), digitOctet (b.toNat % 16)] := by
  rw [octets, encode, String.toList_ofList]
  induction bytes with
  | nil => rfl
  | cons b rest ih =>
    have hb := b.toNat_lt
    rw [List.flatMap_cons, List.flatMap_append, ih, List.flatMap_cons, encodeOctet]
    simp only [List.flatMap_cons, List.flatMap_nil,
      utf8EncodeChar_digit (show b.toNat / 16 < 16 by omega),
      utf8EncodeChar_digit (show b.toNat % 16 < 16 by omega)]
    rfl

/-- What is written has two octets for each octet. -/
theorem length_octets_encode (bytes : List UInt8) :
    (octets (encode bytes)).length = 2 * bytes.length := by
  rw [octets_encode]
  induction bytes with
  | nil => rfl
  | cons b rest ih =>
    rw [List.flatMap_cons, List.length_append, ih]
    simp only [List.length_cons, List.length_nil]
    omega

/-- What is written consists of digits. -/
theorem digitValue?_isSome_of_mem {bytes : List UInt8} {b : UInt8}
    (h : b ∈ octets (encode bytes)) : (digitValue? b).isSome = true := by
  rw [octets_encode, List.mem_flatMap] at h
  obtain ⟨x, -, hb⟩ := h
  have hx := x.toNat_lt
  simp only [List.mem_cons, List.not_mem_nil, or_false] at hb
  rcases hb with rfl | rfl
  · rw [digitValue?_digitOctet (by omega)]
    rfl
  · rw [digitValue?_digitOctet (by omega)]
    rfl

/-- Pairs of digits are read as the octets that they were written for. -/
theorem decodePairs_digits (index : Nat) (bytes : List UInt8) :
    decodePairs index
        (bytes.flatMap fun b => [digitOctet (b.toNat / 16), digitOctet (b.toNat % 16)]) =
      .ok bytes := by
  induction bytes generalizing index with
  | nil => rfl
  | cons b rest ih =>
    have hb := b.toNat_lt
    have hvalue : 16 * (b.toNat / 16) + b.toNat % 16 = b.toNat := by omega
    rw [List.flatMap_cons]
    simp only [List.cons_append, List.nil_append, decodePairs,
      digitValue?_digitOctet (show b.toNat / 16 < 16 by omega),
      digitValue?_digitOctet (show b.toNat % 16 < 16 by omega), ih, hvalue, UInt8.ofNat_toNat]
    rfl

/-- What is written is read back. -/
theorem decode_encode (bytes : List UInt8) : decode (encode bytes) = .ok bytes := by
  have hlength := length_octets_encode bytes
  unfold decode
  dsimp only
  rw [if_neg (by omega), octets_encode, decodePairs_digits]

end BranchSync.Text.Hex
