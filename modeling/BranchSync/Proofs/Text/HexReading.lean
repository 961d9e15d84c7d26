import BranchSync.Text.Hex
import BranchSync.Proofs.Text.Ascii

/-!
# What the hexadecimal reader makes of a text

A text is hexadecimal when its octets are digits and can be taken in pairs. The reader accepts just
these, and writing what it read gives the text in lowercase. What it reports for another text is
determined by the text: an odd number of octets comes before everything else, and otherwise it is the
first octet that is no digit, with its position. The check and the reader work on octets; a character
that is no digit has an octet that is none, so nothing else passes as digits.
-/

namespace BranchSync.Text.Hex

/-- The hexadecimal digits of either case. -/
def digits : List Char :=
  ['0', '1', '2', '3', '4', '5', '6', '7', '8', '9', 'a', 'b', 'c', 'd', 'e', 'f',
    'A', 'B', 'C', 'D', 'E', 'F']

/-- A digit is below 128. -/
theorem toNat_lt_of_mem_digits {c : Char} (h : c ∈ digits) : c.toNat < 128 := by
  have hall : digits.all (fun c => decide (c.toNat < 128)) = true := by decide
  exact of_decide_eq_true (List.all_eq_true.mp hall c h)

/-- A digit has a value, whose lowercase digit is the digit in lowercase. -/
theorem exists_value_of_mem_digits {c : Char} (h : c ∈ digits) :
    ∃ n < 16, digitValue? (UInt8.ofNat c.toNat) = some n ∧ digit n = c.toLower := by
  have hall : digits.all (fun c => (digitValue? (UInt8.ofNat c.toNat)).any fun n =>
      decide (n < 16) && digit n == c.toLower) = true := by decide
  obtain ⟨n, hvalue, hn⟩ := (Option.any_eq_true _ _).mp (List.all_eq_true.mp hall c h)
  rw [Bool.and_eq_true, decide_eq_true_iff, beq_iff_eq] at hn
  exact ⟨n, hn.1, hvalue, hn.2⟩

/-- Among the characters below 128, the digits are those whose octet has a value. -/
theorem mem_digits_iff_of_lt {n : Nat} (h : n < 128) :
    Char.ofNat n ∈ digits ↔
      (String.utf8EncodeChar (Char.ofNat n)).all (fun b => (digitValue? b).isSome) = true := by
  revert n
  decide

/-- An octet from 128 on is no digit. -/
theorem digitValue?_of_le_toNat {b : UInt8} (h : 128 ≤ b.toNat) : digitValue? b = none := by
  unfold digitValue?
  dsimp only
  rw [if_neg (by omega), if_neg (by omega), if_neg (by omega)]

/-- The digits are the characters whose octets have values. -/
theorem mem_digits_iff {c : Char} :
    c ∈ digits ↔ (String.utf8EncodeChar c).all (fun b => (digitValue? b).isSome) = true := by
  by_cases hsmall : c.toNat < 128
  · have h := mem_digits_iff_of_lt hsmall
    rw [Char.ofNat_toNat] at h
    exact h
  · constructor
    · intro hmem
      exact absurd (toNat_lt_of_mem_digits hmem) hsmall
    · intro h
      obtain ⟨b, hb⟩ := List.exists_mem_of_ne_nil _ (String.utf8EncodeChar_ne_nil (c := c))
      have hnone : digitValue? b = none :=
        digitValue?_of_le_toNat (le_toNat_of_mem_utf8EncodeChar (Nat.le_of_not_lt hsmall) hb)
      have hsome := List.all_eq_true.mp h b hb
      rw [hnone] at hsome
      cases hsome

/-- The octets of a text have values exactly if its characters are digits. -/
theorem all_octets_iff {s : String} :
    (octets s).all (fun b => (digitValue? b).isSome) = true ↔ ∀ c ∈ s.toList, c ∈ digits := by
  rw [octets, List.all_flatMap, List.all_eq_true]
  exact forall₂_congr fun c _ => mem_digits_iff.symm

/-- A text of digits has one octet for each digit. -/
theorem octets_of_digits {s : String} (h : ∀ c ∈ s.toList, c ∈ digits) :
    octets s = s.toList.map fun c => UInt8.ofNat c.toNat := by
  unfold octets
  revert h
  induction s.toList with
  | nil => exact fun _ => rfl
  | cons c rest ih =>
    intro h
    have hc := utf8EncodeChar_ofNat (toNat_lt_of_mem_digits (h c List.mem_cons_self))
    rw [Char.ofNat_toNat] at hc
    rw [List.flatMap_cons, hc, ih fun c' hc' => h c' (List.mem_cons_of_mem c hc')]
    rfl

/-- Pairs of digits are read as octets whose digits they are in lowercase. -/
theorem exists_decodePairs_eq_ok (index : Nat) : ∀ cs : List Char, (∀ c ∈ cs, c ∈ digits) →
    cs.length % 2 = 0 →
    ∃ bytes, decodePairs index (cs.map fun c => UInt8.ofNat c.toNat) = .ok bytes ∧
      bytes.flatMap encodeOctet = cs.map Char.toLower
  | [], _, _ => ⟨[], rfl, rfl⟩
  | [_], _, heven => by simp at heven
  | high :: low :: rest, hdigits, heven => by
    obtain ⟨h, hh, hhigh, hhighLower⟩ := exists_value_of_mem_digits (hdigits high (by simp))
    obtain ⟨l, hl, hlow, hlowLower⟩ := exists_value_of_mem_digits (hdigits low (by simp))
    obtain ⟨bytes, hread, hspelled⟩ := exists_decodePairs_eq_ok (index + 2) rest
      (fun c hc => hdigits c (by simp [hc]))
      (by rw [List.length_cons, List.length_cons] at heven; omega)
    have hvalue : (UInt8.ofNat (16 * h + l)).toNat = 16 * h + l := by
      rw [UInt8.toNat_ofNat', Nat.mod_eq_of_lt (by omega)]
    refine ⟨UInt8.ofNat (16 * h + l) :: bytes, ?_, ?_⟩
    · simp only [List.map_cons, decodePairs, hhigh, hlow, hread]
      rfl
    · rw [List.flatMap_cons, hspelled, encodeOctet, hvalue,
        show (16 * h + l) / 16 = h by omega, show (16 * h + l) % 16 = l by omega, hhighLower,
        hlowLower]
      rfl

/-- The octets of a text are digits and can be taken in pairs. -/
def WellFormed (s : String) : Prop :=
  s.utf8ByteSize % 2 = 0 ∧ ∀ b ∈ octets s, (digitValue? b).isSome = true

/-- A text is not hexadecimal if the number of its octets is odd or one of them is no digit. -/
theorem not_wellFormed_iff {s : String} :
    ¬ WellFormed s ↔ s.utf8ByteSize % 2 = 1 ∨ ∃ b ∈ octets s, digitValue? b = none := by
  rw [WellFormed, Classical.not_and_iff_not_or_not]
  simp [Option.isSome_iff_ne_none]

/-- What is wrong with a text that is not hexadecimal: the number of its octets is odd, or else this
is the first octet that is no digit. -/
inductive Fault (s : String) : Error → Prop
  | odd (hodd : s.utf8ByteSize % 2 = 1) : Fault s .oddLength
  | digit {before after : List UInt8} {b : UInt8} (heven : s.utf8ByteSize % 2 = 0)
      (hsplit : octets s = before ++ b :: after)
      (hbefore : ∀ x ∈ before, (digitValue? x).isSome = true) (hb : digitValue? b = none) :
      Fault s (.badDigit b before.length)

/-- The first octet that is no digit is reported with its position. -/
theorem decodePairs_of_bad {b : UInt8} (hb : digitValue? b = none) (after : List UInt8) :
    ∀ (index : Nat) (before : List UInt8), (before ++ b :: after).length % 2 = 0 →
    (∀ x ∈ before, (digitValue? x).isSome = true) →
    decodePairs index (before ++ b :: after) = .error (.badDigit b (index + before.length))
  | index, [], heven, _ => by
    cases after with
    | nil => simp at heven
    | cons low rest => simp [decodePairs, hb]
  | index, [high], _, hbefore => by
    obtain ⟨h, hhigh⟩ := Option.isSome_iff_exists.mp (hbefore high (by simp))
    simp [decodePairs, hhigh, hb]
  | index, high :: low :: rest, heven, hbefore => by
    obtain ⟨h, hhigh⟩ := Option.isSome_iff_exists.mp (hbefore high (by simp))
    obtain ⟨l, hlow⟩ := Option.isSome_iff_exists.mp (hbefore low (by simp))
    have hread := decodePairs_of_bad hb after (index + 2) rest
      (by simp only [List.cons_append, List.length_cons] at heven; omega)
      (fun x hx => hbefore x (by simp [hx]))
    have hposition : index + 2 + rest.length = index + (rest.length + 1 + 1) := by omega
    simp only [List.cons_append, decodePairs, hhigh, hlow, hread, List.length_cons, hposition]
    rfl

/-- A hexadecimal text is read as one octet for each pair of its own, and these are written as the
text in lowercase. -/
theorem WellFormed.exists_decode {s : String} (h : WellFormed s) :
    ∃ read, decode s = .ok read ∧ encode read = s.toLower ∧ s.utf8ByteSize = 2 * read.length := by
  obtain ⟨heven, hvalues⟩ := h
  have hdigits : ∀ c ∈ s.toList, c ∈ digits := all_octets_iff.mp (List.all_eq_true.mpr hvalues)
  have hoctets := octets_of_digits hdigits
  have hcount : s.utf8ByteSize = s.toList.length := by
    rw [← length_octets, hoctets, List.length_map]
  obtain ⟨read, hread, hspelled⟩ := exists_decodePairs_eq_ok 0 s.toList hdigits (by omega)
  refine ⟨read, ?_, ?_, ?_⟩
  · unfold decode
    dsimp only
    rw [length_octets, if_neg (by omega), hoctets, hread]
  · rw [encode, hspelled, ← String.toList_map, String.ofList_toList]
    rfl
  · have htwo := congrArg List.length hspelled
    simp only [List.length_flatMap, encodeOctet, List.length_cons, List.length_nil,
      List.map_const', List.sum_replicate_nat, List.length_map] at htwo
    omega

/-- What is wrong with a text is reported. -/
theorem Fault.decode_eq {s : String} {e : Error} (h : Fault s e) : decode s = .error e := by
  unfold decode
  dsimp only
  rw [length_octets]
  cases h with
  | odd hodd => rw [if_pos hodd]
  | @digit before after b heven hsplit hbefore hb =>
    have hlength : (before ++ b :: after).length % 2 = 0 := by
      rw [← hsplit, length_octets]
      exact heven
    rw [if_neg (by omega), hsplit, decodePairs_of_bad hb after 0 before hlength hbefore,
      Nat.zero_add]

/-- Something is wrong with a text unless it is hexadecimal. -/
theorem exists_fault {s : String} (h : ¬ WellFormed s) : ∃ e, Fault s e := by
  by_cases heven : s.utf8ByteSize % 2 = 0
  · cases hfirst : (octets s).find? fun b => (digitValue? b).isNone with
    | none =>
      refine absurd ⟨heven, fun b hb => ?_⟩ h
      simpa [Option.isSome_iff_ne_none] using List.find?_eq_none.mp hfirst b hb
    | some b =>
      obtain ⟨hb, before, after, hsplit, hbefore⟩ := List.find?_eq_some_iff_append.mp hfirst
      exact ⟨_, .digit heven hsplit (fun x hx => by simpa using hbefore x hx) (by simpa using hb)⟩
  · exact ⟨_, .odd (by omega)⟩

/-- A text is refused exactly for what is wrong with it. -/
theorem decode_eq_error_iff {s : String} {e : Error} : decode s = .error e ↔ Fault s e := by
  constructor
  · intro h
    by_cases hform : WellFormed s
    · obtain ⟨read, hread, -⟩ := hform.exists_decode
      rw [hread] at h
      cases h
    · obtain ⟨fault, hfault⟩ := exists_fault hform
      rw [hfault.decode_eq] at h
      rw [← Except.error.inj h]
      exact hfault
  · exact Fault.decode_eq

/-- Something is wrong with a text exactly if it is not hexadecimal. -/
theorem exists_fault_iff {s : String} : (∃ e, Fault s e) ↔ ¬ WellFormed s := by
  constructor
  · intro hfault hform
    obtain ⟨e, he⟩ := hfault
    obtain ⟨read, hread, -⟩ := hform.exists_decode
    rw [he.decode_eq] at hread
    cases hread
  · exact exists_fault

end BranchSync.Text.Hex
