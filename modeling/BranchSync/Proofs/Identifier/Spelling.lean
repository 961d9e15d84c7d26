import BranchSync.Proofs.Identifier.References
import BranchSync.Proofs.Text.HexReading

/-!
# How commit ids are spelled

A text refers to a commit exactly if it consists of forty hexadecimal digits of either case, and the
commit that it refers to is then the one whose digits these are in lowercase. Three functions decide
this: a check of the shape, the reader of commit ids, which decodes first and measures afterwards,
and the reader of references, which keeps what it cannot read as a token. They agree on every text,
because a hexadecimal text is read as one octet for each pair of its own. A text that is refused is
not hexadecimal, or else it has the wrong length.
-/

namespace BranchSync

open Text

/-- The text consists of the forty hexadecimal digits, of either case, that make up a commit id. -/
def CommitDigits (s : String) : Prop :=
  s.length = commitHexLength ∧ ∀ c ∈ s.toList, c ∈ Text.Hex.digits

/-- The shape of a commit id is that of forty digits. -/
theorem isCommitHex_iff {s : String} : isCommitHex s = true ↔ CommitDigits s := by
  unfold isCommitHex CommitDigits
  dsimp only
  rw [Bool.and_eq_true, beq_iff_eq, Text.Hex.all_octets_iff]
  refine and_congr_left fun hdigits => ?_
  rw [Text.Hex.octets_of_digits hdigits, List.length_map, String.length_toList]

/-- It is decidable whether a text consists of the digits of a commit id. -/
instance (s : String) : Decidable (CommitDigits s) :=
  decidable_of_iff (isCommitHex s = true) isCommitHex_iff

/-- A text has the shape of a commit id exactly if it is hexadecimal and has the length of one. -/
theorem isCommitHex_iff_wellFormed {s : String} :
    isCommitHex s = true ↔ Hex.WellFormed s ∧ s.utf8ByteSize = commitHexLength := by
  unfold isCommitHex Hex.WellFormed
  dsimp only
  rw [Bool.and_eq_true, beq_iff_eq, length_octets, List.all_eq_true]
  constructor
  · intro h
    obtain ⟨hlength, hdigits⟩ := h
    refine ⟨⟨?_, hdigits⟩, hlength⟩
    rw [hlength]
    rfl
  · intro h
    obtain ⟨⟨-, hdigits⟩, hlength⟩ := h
    exact ⟨hlength, hdigits⟩

namespace CommitId

variable {s : String}

/-- A hexadecimal text is read as the commit id that it spells if it has the shape of one, and is
refused for its length otherwise. -/
theorem ofHex_of_wellFormed (h : Hex.WellFormed s) :
    (isCommitHex s = true ∧ ∃ id, ofHex s = .ok id ∧ id.toHex = s.toLower) ∨
      (isCommitHex s = false ∧ ofHex s = .error (.invalidLength (s.utf8ByteSize / 2))) := by
  obtain ⟨read, hread, hlower, hlength⟩ := h.exists_decode
  have hhalf : s.utf8ByteSize / 2 = read.length := by omega
  have hshape : isCommitHex s = true ↔ read.length = commitIdLength := by
    rw [isCommitHex_iff_wellFormed, and_iff_right h, hlength,
      show commitHexLength = 2 * commitIdLength from rfl]
    exact Nat.mul_right_inj (by decide)
  unfold ofHex
  rw [hread, hhalf]
  by_cases hsize : read.length = commitIdLength
  · exact Or.inl ⟨hshape.mpr hsize, ⟨read, hsize⟩, dif_pos hsize, hlower⟩
  · exact Or.inr ⟨Bool.eq_false_iff.mpr (mt hshape.mp hsize), dif_neg hsize⟩

/-- A text is refused as not hexadecimal exactly for what is wrong with it. -/
theorem ofHex_eq_invalidHex_iff {cause : Hex.Error} :
    ofHex s = .error (.invalidHex cause) ↔ Hex.Fault s cause := by
  rw [← Hex.decode_eq_error_iff]
  unfold ofHex
  cases Hex.decode s with
  | error e => simp
  | ok read =>
    simp only [ofOctets, reduceCtorEq, iff_false]
    split <;> simp

end CommitId

/-- Forty digits are read as the commit id whose digits they are in lowercase. -/
theorem CommitDigits.exists_ofHex {s : String} (h : CommitDigits s) :
    ∃ id, CommitId.ofHex s = .ok id ∧ id.toHex = s.toLower := by
  have hshape := isCommitHex_iff.mpr h
  rcases CommitId.ofHex_of_wellFormed (isCommitHex_iff_wellFormed.mp hshape).1 with
    ⟨-, hread⟩ | ⟨hother, -⟩
  · exact hread
  · rw [hshape] at hother
    cases hother

namespace CommitId

variable {s : String}

/-- A text is read as a commit id exactly if it has the shape of one. -/
theorem exists_ofHex_iff : (∃ id, ofHex s = .ok id) ↔ isCommitHex s = true := by
  constructor
  · intro h
    obtain ⟨id, hid⟩ := h
    by_cases hform : Hex.WellFormed s
    · rcases ofHex_of_wellFormed hform with ⟨hshape, -⟩ | ⟨-, hrefused⟩
      · exact hshape
      · rw [hid] at hrefused
        cases hrefused
    · obtain ⟨fault, hfault⟩ := Hex.exists_fault hform
      rw [ofHex_eq_invalidHex_iff.mpr hfault] at hid
      cases hid
  · intro hshape
    obtain ⟨id, hid, -⟩ := (isCommitHex_iff.mp hshape).exists_ofHex
    exact ⟨id, hid⟩

/-- A text that is refused has not the shape of a commit id. -/
theorem not_isCommitHex_of_error {e : IdentifierError} (h : ofHex s = .error e) :
    ¬ isCommitHex s = true := by
  intro hshape
  obtain ⟨id, hid⟩ := exists_ofHex_iff.mpr hshape
  rw [h] at hid
  cases hid

/-- A text is read as the commit id whose digits it consists of, in either case. -/
theorem ofHex_eq_ok_iff {id : CommitId} :
    ofHex s = .ok id ↔ CommitDigits s ∧ id.toHex = s.toLower := by
  constructor
  · intro hid
    have hdigits := isCommitHex_iff.mp (exists_ofHex_iff.mp ⟨id, hid⟩)
    obtain ⟨other, hother, hlower⟩ := hdigits.exists_ofHex
    rw [hid] at hother
    cases hother
    exact ⟨hdigits, hlower⟩
  · intro h
    obtain ⟨hdigits, hlower⟩ := h
    obtain ⟨other, hother, hlower'⟩ := hdigits.exists_ofHex
    have hsame : Tip.commit other = .commit id := Tip.toHex_inj.mp (hlower'.trans hlower.symm)
    cases hsame
    exact hother

/-- A text is refused for its length exactly if it is hexadecimal and no commit id, and half the
number of its octets is reported. -/
theorem ofHex_eq_invalidLength_iff {actual : Nat} :
    ofHex s = .error (.invalidLength actual) ↔
      Hex.WellFormed s ∧ isCommitHex s = false ∧ actual = s.utf8ByteSize / 2 := by
  by_cases hform : Hex.WellFormed s
  · rcases ofHex_of_wellFormed hform with ⟨hshape, id, hid, -⟩ | ⟨hshape, hrefused⟩
    · simp [hid, hshape]
    · simp [hrefused, hshape, hform, eq_comm]
  · obtain ⟨fault, hfault⟩ := Hex.exists_fault hform
    simp [ofHex_eq_invalidHex_iff.mpr hfault, hform]

end CommitId

/-- A text is read as the tip whose wire form it is in lowercase. -/
theorem Tip.ofHex_eq_ok_iff {s : String} {tip : Tip} :
    ofHex s = .ok tip ↔ (s = "" ∨ CommitDigits s) ∧ tip.toHex = s.toLower := by
  by_cases hempty : s = ""
  · have hlower : "".toLower = "" := by decide +kernel
    rw [hempty, hlower, toHex_eq_empty_iff]
    simp [ofHex, eq_comm]
  · rw [ofHex, if_neg hempty, or_iff_right hempty]
    cases hread : CommitId.ofHex s with
    | ok id =>
      obtain ⟨hdigits, hlower⟩ := CommitId.ofHex_eq_ok_iff.mp hread
      have hid : (Tip.commit id).toHex = s.toLower := hlower
      rw [← hid, toHex_inj, and_iff_right hdigits, Except.ok.injEq]
      exact eq_comm
    | error e =>
      refine iff_of_false (by simp) ?_
      intro h
      exact CommitId.not_isCommitHex_of_error hread (isCommitHex_iff.mpr h.1)

/-- A text is refused as a tip exactly as it is as a commit id, except the empty one. -/
theorem Tip.ofHex_eq_error_iff {s : String} {e : IdentifierError} :
    ofHex s = .error e ↔ s ≠ "" ∧ CommitId.ofHex s = .error e := by
  by_cases hempty : s = ""
  · simp [ofHex, hempty]
  · rw [ofHex, if_neg hempty, and_iff_right hempty]
    cases CommitId.ofHex s <;> simp

namespace TipRef

variable {s : String}

/-- A text refers to the tip that it is read as, and is a token where it is refused as one. -/
theorem ofText_eq (s : String) :
    ofText s = match Tip.ofHex s with
      | .ok value => .tip value
      | .error _ => .token s := by
  by_cases hempty : s = ""
  · rw [hempty]
    rfl
  · rw [ofText, if_neg hempty, Tip.ofHex, if_neg hempty]
    cases hread : CommitId.ofHex s with
    | ok id => rw [if_pos (CommitId.exists_ofHex_iff.mp ⟨id, hread⟩)]
    | error e => rw [if_neg (CommitId.not_isCommitHex_of_error hread)]

/-- The readers of references and of tips agree on what is a tip. -/
theorem ofText_eq_tip_iff_ofHex {tip : Tip} : ofText s = .tip tip ↔ Tip.ofHex s = .ok tip := by
  rw [ofText_eq]
  cases Tip.ofHex s <;> simp

/-- A text is kept as a token, as it is, exactly where it is refused as a tip. -/
theorem ofText_eq_token_iff {text : String} :
    ofText s = .token text ↔ text = s ∧ ∃ e, Tip.ofHex s = .error e := by
  rw [ofText_eq]
  cases Tip.ofHex s <;> simp [eq_comm]

/-- A text refers to a tip exactly if it is empty or consists of the digits of a commit id, and to
the tip whose wire form it is in lowercase. -/
theorem ofText_eq_tip_iff {tip : Tip} :
    ofText s = .tip tip ↔ (s = "" ∨ CommitDigits s) ∧ tip.toHex = s.toLower := by
  rw [ofText_eq_tip_iff_ofHex, Tip.ofHex_eq_ok_iff]

/-- What is echoed of a text is the text in lowercase if it refers to a tip, and nothing if not. -/
theorem echoHex_ofText (s : String) :
    (ofText s).echoHex = if s = "" ∨ isCommitHex s = true then s.toLower else "" := by
  rw [ofText_eq]
  cases hread : Tip.ofHex s with
  | ok tip =>
    obtain ⟨hform, hlower⟩ := Tip.ofHex_eq_ok_iff.mp hread
    rw [← isCommitHex_iff] at hform
    rw [if_pos hform]
    exact hlower
  | error e =>
    obtain ⟨hempty, hrefused⟩ := Tip.ofHex_eq_error_iff.mp hread
    rw [if_neg (not_or.mpr ⟨hempty, CommitId.not_isCommitHex_of_error hrefused⟩)]
    rfl

end TipRef

/-- The readers of commit ids agree on every text. The reader of commit ids accepts the texts with
the shape of one and no others; the reader of references refers to the tip that the reader of tips
reads, and keeps the text as it is where that one refuses it. What is written for what was read is
the text in lowercase, and nothing is echoed of a token. A text that is refused as a commit id is
reported as not hexadecimal if it is not, and otherwise by half the number of its octets; the reader
of tips refuses the same texts for the same reasons, except the empty one. What is written is read
back. -/
theorem commit_readers_agree :
    (∀ s,
      ((∃ id, CommitId.ofHex s = .ok id) ↔ isCommitHex s = true) ∧
      (∀ id, CommitId.ofHex s = .ok id ↔ CommitDigits s ∧ id.toHex = s.toLower) ∧
      (∀ tip, TipRef.ofText s = .tip tip ↔ Tip.ofHex s = .ok tip) ∧
      (∀ text, TipRef.ofText s = .token text ↔ text = s ∧ ∃ e, Tip.ofHex s = .error e) ∧
      (∀ tip, Tip.ofHex s = .ok tip ↔ (s = "" ∨ CommitDigits s) ∧ tip.toHex = s.toLower) ∧
      (TipRef.ofText s).echoHex = (if s = "" ∨ isCommitHex s = true then s.toLower else "") ∧
      ((∃ cause, CommitId.ofHex s = .error (.invalidHex cause)) ↔
        s.utf8ByteSize % 2 = 1 ∨ ∃ b ∈ octets s, Hex.digitValue? b = none) ∧
      (∀ actual, CommitId.ofHex s = .error (.invalidLength actual) ↔
        Hex.WellFormed s ∧ isCommitHex s = false ∧ actual = s.utf8ByteSize / 2) ∧
      ∀ e, Tip.ofHex s = .error e ↔ s ≠ "" ∧ CommitId.ofHex s = .error e) ∧
    (∀ id, CommitId.ofHex (CommitId.toHex id) = .ok id) ∧
    (∀ tip, TipRef.ofText (Tip.toHex tip) = .tip tip) ∧
    ∀ text, (TipRef.token text).echoHex = "" := by
  refine ⟨?_, CommitId.ofHex_toHex, TipRef.ofText_toHex, fun _ => rfl⟩
  intro s
  have hinvalidHex : (∃ cause, CommitId.ofHex s = .error (.invalidHex cause)) ↔
      s.utf8ByteSize % 2 = 1 ∨ ∃ b ∈ octets s, Hex.digitValue? b = none := by
    rw [← Hex.not_wellFormed_iff, ← Hex.exists_fault_iff]
    exact exists_congr fun _ => CommitId.ofHex_eq_invalidHex_iff
  exact ⟨CommitId.exists_ofHex_iff, fun _ => CommitId.ofHex_eq_ok_iff,
    fun _ => TipRef.ofText_eq_tip_iff_ofHex, fun _ => TipRef.ofText_eq_token_iff,
    fun _ => Tip.ofHex_eq_ok_iff, TipRef.echoHex_ofText s, hinvalidHex,
    fun _ => CommitId.ofHex_eq_invalidLength_iff, fun _ => Tip.ofHex_eq_error_iff⟩

end BranchSync
