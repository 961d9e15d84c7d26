import BranchSync.Repository

/-!
# Reading back packs

A pack is cut into slices of the length of a commit id. The slices of a pack that was written are
the commit ids that it was written from, and every text of a whole number of slices is a pack. Other
octet strings are cut into whole slices too, and refused for the octets that are left over, so no
refusal is ever about a slice.
-/

namespace BranchSync

namespace Pack

/-- A pack has twenty octets for each commit. -/
theorem length_encode (commits : List CommitId) :
    (encode commits).length = commitIdLength * commits.length := by
  induction commits with
  | nil => rfl
  | cons id rest ih =>
    change (id.octets ++ encode rest).length = _
    rw [List.length_append, ih, id.length_octets, List.length_cons, Nat.mul_succ, Nat.add_comm]

/-- The slices of a pack that was written are the commits that it was written from. -/
theorem readSlices_slices_encode (commits : List CommitId) :
    readSlices (slices commits.length (encode commits)) = .ok commits := by
  induction commits with
  | nil => rfl
  | cons id rest ih =>
    have hfirst : (id.octets ++ encode rest).take commitIdLength = id.octets :=
      List.take_left' id.length_octets
    have hrest : (id.octets ++ encode rest).drop commitIdLength = encode rest :=
      List.drop_left' id.length_octets
    change readSlices ((id.octets ++ encode rest).take commitIdLength ::
      slices rest.length ((id.octets ++ encode rest).drop commitIdLength)) = _
    rw [hfirst, hrest, readSlices, CommitId.ofOctets_octets, ih]

/-- A pack that was written is read back. -/
theorem decode_encode (commits : List CommitId) : decode (encode commits) = .ok commits := by
  have hpos : 0 < commitIdLength := by decide
  unfold decode
  rw [length_encode, if_neg (not_not_intro (Nat.mul_mod_right _ _)),
    Nat.mul_div_cancel_left _ hpos, readSlices_slices_encode]

/-- The octet strings that are packs are those whose length is a multiple of that of a commit id. -/
theorem exists_encode_eq_iff {pack : List UInt8} :
    (∃ commits, encode commits = pack) ↔ commitIdLength ∣ pack.length := by
  constructor
  · intro h
    obtain ⟨commits, rfl⟩ := h
    exact ⟨commits.length, length_encode commits⟩
  · intro h
    obtain ⟨count, hcount⟩ := h
    induction count generalizing pack with
    | zero => exact ⟨[], (List.eq_nil_of_length_eq_zero hcount).symm⟩
    | succ count ih =>
      rw [Nat.mul_succ] at hcount
      have hfirst : (pack.take commitIdLength).length = commitIdLength :=
        List.length_take_of_le (by omega)
      have hrest : (pack.drop commitIdLength).length = commitIdLength * count := by
        rw [List.length_drop]
        omega
      obtain ⟨commits, hcommits⟩ := ih hrest
      refine ⟨⟨pack.take commitIdLength, hfirst⟩ :: commits, ?_⟩
      change pack.take commitIdLength ++ encode commits = pack
      rw [hcommits, List.take_append_drop]

/-- A pack is read as the commits that it was written from. -/
theorem decode_eq_ok_iff {pack : List UInt8} {commits : List CommitId} :
    decode pack = .ok commits ↔ encode commits = pack := by
  constructor
  · intro h
    have hmultiple : commitIdLength ∣ pack.length := by
      refine Nat.dvd_of_mod_eq_zero (Decidable.not_not.mp fun hragged => ?_)
      rw [decode, if_pos hragged] at h
      cases h
    obtain ⟨written, rfl⟩ := exists_encode_eq_iff.mpr hmultiple
    rw [decode_encode] at h
    rw [Except.ok.inj h]
  · intro h
    rw [← h, decode_encode]

/-- No slice is shorter than a commit id, if there are octets for as many slices. -/
theorem length_of_mem_slices {count : Nat} {bytes slice : List UInt8}
    (hcount : count * commitIdLength ≤ bytes.length) (h : slice ∈ slices count bytes) :
    slice.length = commitIdLength := by
  induction count generalizing bytes with
  | zero => cases h
  | succ count ih =>
    rw [Nat.succ_mul] at hcount
    rcases List.mem_cons.mp h with hfirst | hlater
    · rw [hfirst]
      exact List.length_take_of_le (by omega)
    · have hrest : count * commitIdLength ≤ (bytes.drop commitIdLength).length := by
        rw [List.length_drop]
        omega
      exact ih hrest hlater

/-- An octet string is refused exactly for octets that are left over. -/
theorem decode_eq_error_iff {pack : List UInt8} {e : PackError} :
    decode pack = .error e ↔ e = .ragged pack.length ∧ ¬ commitIdLength ∣ pack.length := by
  by_cases hmultiple : commitIdLength ∣ pack.length
  · obtain ⟨commits, rfl⟩ := exists_encode_eq_iff.mpr hmultiple
    simp [decode_encode, hmultiple]
  · have hragged : pack.length % commitIdLength ≠ 0 := mt Nat.dvd_of_mod_eq_zero hmultiple
    simp [decode, hragged, hmultiple, eq_comm]

end Pack

namespace Repository

/-- A pack is read exactly when it is one. -/
theorem readPack_eq_ok_iff {pack : List UInt8} {commits : List CommitId} :
    readPack pack = .ok commits ↔ Pack.decode pack = .ok commits := by
  rw [readPack]
  cases Pack.decode pack <;> simp

/-- A repository refuses an octet string as a pack for the reason that it is none. -/
theorem readPack_eq_error_iff {pack : List UInt8} {e : RepositoryError} :
    readPack pack = .error e ↔ ∃ cause, Pack.decode pack = .error cause ∧ e = .corruptPack cause := by
  rw [readPack]
  cases Pack.decode pack <;> simp [eq_comm]

/-- Packs and lists of commits are in bijection: commits are read back from their pack, and an octet
string of any number of whole commit ids is the pack of the commits that are read from it. Every
slice that is cut off is a commit id, so an octet string is only ever refused for its length. -/
theorem packs_biject_with_commits :
    (∀ commits, readPack (Pack.encode commits) = .ok commits) ∧
    ∀ pack,
      ((∃ commits, readPack pack = .ok commits) ↔ 20 ∣ pack.length) ∧
      (∀ commits, readPack pack = .ok commits ↔ Pack.encode commits = pack) ∧
      (∀ slice ∈ Pack.slices (pack.length / 20) pack, ∃ id, CommitId.ofOctets slice = .ok id) ∧
      ∀ e, readPack pack = .error e ↔ e = .corruptPack (.ragged pack.length) ∧ ¬ 20 ∣ pack.length := by
  have hread (pack : List UInt8) (commits : List CommitId) :
      readPack pack = .ok commits ↔ Pack.encode commits = pack :=
    readPack_eq_ok_iff.trans Pack.decode_eq_ok_iff
  refine ⟨fun commits => (hread _ commits).mpr rfl, fun pack => ⟨?_, hread pack, ?_, ?_⟩⟩
  · rw [exists_congr (hread pack)]
    exact Pack.exists_encode_eq_iff
  · intro slice hslice
    have hlength := Pack.length_of_mem_slices (Nat.div_mul_le_self _ _) hslice
    exact ⟨⟨slice, hlength⟩, dif_pos hlength⟩
  · intro e
    rw [readPack_eq_error_iff]
    constructor
    · rintro ⟨cause, hcause, rfl⟩
      obtain ⟨rfl, hragged⟩ := Pack.decode_eq_error_iff.mp hcause
      exact ⟨rfl, hragged⟩
    · rintro ⟨rfl, hragged⟩
      exact ⟨_, Pack.decode_eq_error_iff.mpr ⟨rfl, hragged⟩, rfl⟩

/-- A single octet behind a commit id is left over: the slice before it is the commit id, and the
refusal names the length of the whole. -/
theorem octet_left_over_refused :
    (∃ id, CommitId.ofOctets (List.replicate 20 7) = .ok id) ∧
      readPack (List.replicate 21 7) = .error (.corruptPack (.ragged 21)) := by
  obtain ⟨-, -, hslices, hrefused⟩ := packs_biject_with_commits.2 (List.replicate 21 7)
  exact ⟨hslices _ (by decide), (hrefused _).mpr ⟨rfl, by decide⟩⟩

end Repository

end BranchSync
