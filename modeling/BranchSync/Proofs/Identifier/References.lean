import BranchSync.Proofs.Text.HexDigits
import BranchSync.Tip

/-!
# Tips survive the wire

A commit id that is written in hexadecimal is read back as itself, so a tip that a server sends
out comes back as a reference to the same tip. The empty tip is the empty text.
-/

namespace BranchSync

/-- The commit id whose octets are all the same. -/
def CommitId.uniform (octet : UInt8) : CommitId :=
  ⟨List.replicate commitIdLength octet, List.length_replicate⟩

/-- A commit id is read back from its digits. -/
theorem CommitId.ofHex_toHex (id : CommitId) : ofHex id.toHex = .ok id := by
  unfold ofHex toHex
  rw [Text.Hex.decode_encode]
  exact id.ofOctets_octets

/-- The digits of a commit id have the shape of one. -/
theorem isCommitHex_toHex (id : CommitId) : isCommitHex id.toHex = true := by
  have hlength := Text.Hex.length_octets_encode id.octets
  rw [id.length_octets] at hlength
  unfold isCommitHex CommitId.toHex
  dsimp only
  rw [hlength, Bool.and_eq_true]
  refine ⟨rfl, ?_⟩
  rw [List.all_eq_true]
  intro b hb
  exact Text.Hex.digitValue?_isSome_of_mem hb

/-- The digits of a commit id are not the empty text. -/
theorem CommitId.toHex_ne_empty (id : CommitId) : id.toHex ≠ "" := by
  intro hempty
  have hlength := Text.Hex.length_octets_encode id.octets
  change (Text.octets id.toHex).length = _ at hlength
  rw [id.length_octets, hempty, Text.octets_empty] at hlength
  cases hlength

/-- The wire form of a tip is a reference to the tip. -/
theorem TipRef.ofText_toHex (tip : Tip) : ofText tip.toHex = .tip tip := by
  cases tip with
  | empty => rfl
  | commit id =>
    have hne : (Tip.commit id).toHex ≠ "" := id.toHex_ne_empty
    have hshape : isCommitHex (Tip.commit id).toHex = true := isCommitHex_toHex id
    have hread : CommitId.ofHex (Tip.commit id).toHex = .ok id := id.ofHex_toHex
    rw [ofText, if_neg hne, if_pos hshape, hread]

/-- Tips with the same wire form are the same. -/
theorem Tip.toHex_inj {tip other : Tip} : tip.toHex = other.toHex ↔ tip = other := by
  constructor
  · intro h
    have hread := TipRef.ofText_toHex tip
    rw [h, TipRef.ofText_toHex other] at hread
    exact (TipRef.tip.inj hread).symm
  · intro h
    rw [h]

/-- The wire form of a tip is empty exactly if the tip is. -/
theorem Tip.toHex_eq_empty_iff {tip : Tip} : tip.toHex = "" ↔ tip = .empty :=
  @Tip.toHex_inj tip .empty

/-- The wire form of a tip is read as the tip. -/
theorem Tip.ofHex_toHex (tip : Tip) : ofHex tip.toHex = .ok tip := by
  cases tip with
  | empty => rfl
  | commit id =>
    have hne : (Tip.commit id).toHex ≠ "" := id.toHex_ne_empty
    have hread : CommitId.ofHex (Tip.commit id).toHex = .ok id := id.ofHex_toHex
    rw [ofHex, if_neg hne, hread]

/-- Only the empty text refers to the empty tip. -/
theorem TipRef.ofText_eq_empty_iff {text : String} : ofText text = .tip .empty ↔ text = "" := by
  constructor
  · intro h
    by_cases hempty : text = ""
    · exact hempty
    · unfold ofText at h
      rw [if_neg hempty] at h
      split at h
      · split at h <;> cases h
      · cases h
  · intro h
    rw [h]
    rfl

/-- Only the empty history has the empty tip. -/
theorem Tip.ofHistory_eq_empty_iff {history : List CommitId} :
    ofHistory history = .empty ↔ history = [] := by
  unfold ofHistory
  cases hlast : history.getLast? with
  | none => simpa using hlast
  | some id =>
    simp only [reduceCtorEq, false_iff]
    intro hnil
    rw [hnil] at hlast
    cases hlast

end BranchSync
