import BranchSync.Payload.Codec
import BranchSync.Proofs.Text.Ascii
import BranchSync.Proofs.Text.Base64Grammar

/-!
# Packs survive the transfer as text

A pack goes out in the standard alphabet, while an incoming text is first tried in the other one.
A text that both alphabets accept means the same in both, so the octets that come in are those
that went out, wherever blanks were inserted on the way.
-/

namespace BranchSync.Payload

open Text

/-- The octets of an outgoing pack are its symbols. -/
theorem octets_encode (pack : List UInt8) : octets (encode pack) = Base64.encodeOctets pack := by
  refine octets_ofList_map ?_
  intro b hb
  rcases Base64.of_mem_encodeOctets hb with ⟨v, hv, rfl⟩ | rfl
  · exact Base64.symbol_toNat_lt .standard hv
  · decide

/-- The text of a pack has four octets for every three of the pack. -/
theorem utf8ByteSize_encode (pack : List UInt8) :
    (encode pack).utf8ByteSize = 4 * ((pack.length + 2) / 3) := by
  rw [← length_octets, octets_encode, Base64.length_encodeOctets]

/-- Whichever alphabet takes the symbols of a pack, they are read as the pack. -/
theorem decodeCompact_encodeOctets (pack : List UInt8) :
    decodeCompact (Base64.encodeOctets pack) = .ok pack := by
  have hstandard := Base64.decode_encodeOctets pack
  unfold decodeCompact
  cases hurl : Base64.decode .urlSafe (Base64.encodeOctets pack) with
  | ok bytes => rw [Base64.decode_unique hstandard hurl]
  | error first => rw [hstandard]

/-- A text that is an outgoing pack but for blanks is read as the pack. -/
theorem decode_of_withoutBlanks {text : String} {pack : List UInt8}
    (h : withoutBlanks text = encode pack) : decode text = .ok pack := by
  unfold decode
  rw [← octets_withoutBlanks, h, octets_encode, decodeCompact_encodeOctets]

/-- No symbol of a pack is blank. -/
theorem isBlank_of_mem_encodeOctets {pack : List UInt8} {b : UInt8}
    (h : b ∈ Base64.encodeOctets pack) : isBlank b = false := by
  have hsymbol : ∀ v < 64, isBlank (Base64.Alphabet.standard.symbol v) = false := by decide
  rcases Base64.of_mem_encodeOctets h with ⟨v, hv, rfl⟩ | rfl
  · exact hsymbol v hv
  · rfl

/-- The text of an outgoing pack is read as the pack. -/
theorem decode_encode (pack : List UInt8) : decode (encode pack) = .ok pack := by
  have hkeep : (octets (encode pack)).filter (fun b => !isBlank b) = octets (encode pack) := by
    refine List.filter_eq_self.mpr ?_
    intro b hb
    rw [octets_encode] at hb
    rw [isBlank_of_mem_encodeOctets hb]
    rfl
  unfold decode
  rw [hkeep, octets_encode, decodeCompact_encodeOctets]

end BranchSync.Payload
