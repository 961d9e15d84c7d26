import BranchSync.Proofs.Text.Base64Groups

/-!
# Which texts are base64

A text is accepted exactly when it consists of the symbols of an octet string and of filling that
fits, and then it stands for this octet string. The two alphabets spell a value alike if both have
the symbol, so a text that both accept means the same in both, and it does not matter which of them
is tried first.
-/

namespace BranchSync.Text.Base64

/-- The symbols of an octet string with filling that fits: what the grammar allows. -/
def spell (a : Alphabet) (bytes : List UInt8) (k : Nat) : List UInt8 :=
  (sextets bytes).map a.symbol ++ List.replicate k filler

/-- A text of one to four octets is its own last group. -/
theorem decodeGroups_eq_decodeLast (a : Alphabet) (offset : Nat) {group : List UInt8}
    (hne : group ≠ []) (hlength : group.length ≤ 4) :
    decodeGroups a offset group = decodeLast a offset group := by
  rw [decodeGroups]
  · exact hne
  · rintro w x y z next rest rfl
    simp only [List.length_cons] at hlength
    omega

/-- Groups before the last are read one after the other. -/
theorem decodeGroups_cons (a : Alphabet) (offset : Nat) (w x y z : UInt8) {rest : List UInt8}
    (h : rest ≠ []) :
    decodeGroups a offset (w :: x :: y :: z :: rest) = (do
      let head ← decodeGroup a offset w x y z
      let tail ← decodeGroups a (offset + 4) rest
      pure (head ++ tail)) := by
  cases rest with
  | nil => exact absurd rfl h
  | cons next rest => rfl

/-- The values of three octets come before those of the octets behind them. -/
theorem sextets_append (p q r : UInt8) (rest : List UInt8) :
    sextets ([p, q, r] ++ rest) = sextets [p, q, r] ++ sextets rest := rfl

/-- Filling that fits behind some groups fits behind one more. -/
theorem fits_add_four {count k : Nat} : Fits (count + 4) k ↔ Fits count k := by
  rw [Fits, Fits, Nat.add_mod_right]

/-- Groups are read only as the octets whose symbols they are. -/
theorem eq_of_decodeGroups {a : Alphabet} {offset : Nat} {text bytes : List UInt8}
    (h : decodeGroups a offset text = .ok bytes) :
    ∃ k, Fits (sextets bytes).length k ∧ text = spell a bytes k := by
  fun_induction decodeGroups a offset text generalizing bytes with
  | case1 =>
    cases h
    exact ⟨0, Or.inl rfl, rfl⟩
  | case2 offset w x y z next rest ih =>
    simp only [bind_eq_ok_iff, pure_eq_ok_iff, decodeGroup_eq_ok_iff] at h
    obtain ⟨-, ⟨p, q, r, rfl, hgroup⟩, tail, htail, rfl⟩ := h
    obtain ⟨k, hfits, hrest⟩ := ih htail
    refine ⟨k, ?_, ?_⟩
    · exact fits_add_four.mpr hfits
    · rw [spell, sextets_append, List.map_append, ← hgroup, List.append_assoc]
      exact congrArg ([w, x, y, z] ++ ·) hrest
  | case3 offset group hnil hlong =>
    have hlength : group.length ≤ 4 := by
      rcases group with _ | ⟨w, _ | ⟨x, _ | ⟨y, _ | ⟨z, _ | ⟨next, rest⟩⟩⟩⟩⟩
      · simp
      · simp
      · simp
      · simp
      · simp
      · exact absurd rfl (hlong w x y z next rest)
    exact (eq_of_decodeLast hlength h).2

/-- The length of a spelling. -/
theorem length_spell (a : Alphabet) (bytes : List UInt8) (k : Nat) :
    (spell a bytes k).length = (sextets bytes).length + k := by
  rw [spell, List.length_append, List.length_map, List.length_replicate]

/-- A spelling does not leave a single octet over. -/
theorem length_spell_mod_four (a : Alphabet) {bytes : List UInt8} {k : Nat}
    (h : Fits (sextets bytes).length k) : (spell a bytes k).length % 4 ≠ 1 := by
  have hcount := length_sextets bytes
  rw [length_spell]
  rcases h with hk | ⟨hsize, hk⟩ | ⟨hsize, hk⟩
  · omega
  · omega
  · omega

/-- The symbols of one to three octets, with filling that fits, are a last group. -/
theorem decodeGroups_spell_last (a : Alphabet) (offset : Nat) {bytes : List UInt8} {k : Nat}
    (hne : bytes ≠ []) (hlength : bytes.length ≤ 3) (h : Fits (sextets bytes).length k) :
    decodeGroups a offset (spell a bytes k) = .ok bytes := by
  have hpos := List.length_pos_iff.mpr hne
  have hcount := length_sextets bytes
  have hcases : (sextets bytes).length = 2 ∨ (sextets bytes).length = 3 ∨
      (sextets bytes).length = 4 := by omega
  have hspell := length_spell a bytes k
  have hfits : (sextets bytes).length + k ≤ 4 := by
    rw [Fits] at h
    rcases hcases with hsize | hsize | hsize
    · omega
    · omega
    · omega
  rw [decodeGroups_eq_decodeLast]
  · exact decodeLast_symbols a offset hne hlength k
  · apply List.ne_nil_of_length_pos
    omega
  · omega

/-- The symbols of octets, with filling that fits, are read as these octets. -/
theorem decodeGroups_spell (a : Alphabet) (offset : Nat) {bytes : List UInt8} {k : Nat}
    (h : Fits (sextets bytes).length k) : decodeGroups a offset (spell a bytes k) = .ok bytes := by
  fun_induction sextets bytes generalizing offset with
  | case1 =>
    have hk : k = 0 := by simpa [Fits] using h
    rw [hk]
    rfl
  | case2 x => exact decodeGroups_spell_last a offset (by simp) (by simp) h
  | case3 x y v => exact decodeGroups_spell_last a offset (by simp) (by simp) h
  | case4 x y z rest v ih =>
    have hfits : Fits (sextets rest).length k := fits_add_four.mp h
    by_cases hrest : rest = []
    · rw [hrest]
      rw [hrest] at hfits
      exact decodeGroups_spell_last a offset (by simp) (by simp) (fits_add_four.mpr hfits)
    · have hne : spell a rest k ≠ [] := by
        have hpos := List.length_pos_iff.mpr hrest
        apply List.ne_nil_of_length_pos
        rw [length_spell, length_sextets]
        omega
      change decodeGroups a offset (_ :: _ :: _ :: _ :: spell a rest k) = _
      rw [decodeGroups_cons _ _ _ _ _ _ hne, decodeGroup_symbols, ih (offset + 4) hfits]
      rfl

/-- Groups are read as an octet string exactly when they are its symbols with filling that fits. -/
theorem decodeGroups_eq_ok_iff {a : Alphabet} {offset : Nat} {text bytes : List UInt8} :
    decodeGroups a offset text = .ok bytes ↔
      ∃ k, Fits (sextets bytes).length k ∧ text = spell a bytes k := by
  constructor
  · exact eq_of_decodeGroups
  · rintro ⟨k, hfits, rfl⟩
    exact decodeGroups_spell a offset hfits

/-- A text is read as an octet string exactly when it is its symbols with filling that fits. -/
theorem decode_eq_ok_iff {a : Alphabet} {text bytes : List UInt8} :
    decode a text = .ok bytes ↔ ∃ k, Fits (sextets bytes).length k ∧ text = spell a bytes k := by
  rw [← @decodeGroups_eq_ok_iff a 0 text bytes]
  unfold decode
  cases hlast : text.getLast? with
  | none => rw [List.getLast?_eq_none_iff.mp hlast, decodeGroups]
  | some last =>
    dsimp only
    by_cases hleft : text.length % 4 = 1 ∧ last ≠ filler ∧ (a.value? last).isNone = true
    · -- such a text is no spelling, so the groups refuse it as well
      rw [if_pos hleft]
      constructor
      · intro h
        cases h
      · intro h
        obtain ⟨k, hfits, htext⟩ := eq_of_decodeGroups h
        rw [htext] at hleft
        exact absurd hleft.1 (length_spell_mod_four a hfits)
    · rw [if_neg hleft]

/-- Filling fits the symbols of an octet string exactly when it is none or at most what their last
group lacks. -/
theorem fits_iff_le_lacking {bytes : List UInt8} {k : Nat} :
    Fits (sextets bytes).length k ↔ k ≤ lacking (sextets bytes).length := by
  have hcount := length_sextets bytes
  have hcases : (sextets bytes).length % 4 = 0 ∨ (sextets bytes).length % 4 = 2 ∨
      (sextets bytes).length % 4 = 3 := by omega
  rw [Fits, lacking]
  rcases hcases with hsize | hsize | hsize
  · rw [hsize]
    omega
  · rw [hsize]
    omega
  · rw [hsize]
    omega

/-- Standard base64 is read back in the alphabet that it is written in. -/
theorem decode_encodeOctets (bytes : List UInt8) :
    decode .standard (encodeOctets bytes) = .ok bytes :=
  decode_eq_ok_iff.mpr ⟨_, fits_iff_le_lacking.mpr (Nat.le_refl _), encodeOctets_eq bytes⟩

/-- A symbol that another alphabet has as well is spelled alike in both. -/
theorem symbol_eq_of_isSome (a b : Alphabet) {v : Nat} (hv : v < 64)
    (h : (b.value? (a.symbol v)).isSome = true) : a.symbol v = b.symbol v := by
  revert v
  cases a with
  | standard => cases b <;> decide
  | urlSafe => cases b <;> decide

/-- Every octet of a spelling is the filler or has a value. -/
theorem value?_isSome_of_mem_spell {a : Alphabet} {bytes : List UInt8} {k : Nat} {b : UInt8}
    (h : b ∈ spell a bytes k) : b = filler ∨ (a.value? b).isSome = true := by
  rcases List.mem_append.mp h with hsymbol | hfilling
  · obtain ⟨v, hv, rfl⟩ := List.mem_map.mp hsymbol
    rw [value?_symbol a (sextets_lt bytes v hv)]
    exact Or.inr rfl
  · exact Or.inl (List.eq_of_mem_replicate hfilling)

/-- A text that two alphabets accept means the same in both. -/
theorem decode_unique {a b : Alphabet} {text p q : List UInt8} (hp : decode a text = .ok p)
    (hq : decode b text = .ok q) : p = q := by
  obtain ⟨k, hfits, hspell⟩ := decode_eq_ok_iff.mp hp
  obtain ⟨k', -, hspell'⟩ := decode_eq_ok_iff.mp hq
  have hsame : (sextets p).map a.symbol = (sextets p).map b.symbol := by
    apply List.map_congr_left
    intro v hv
    have hlt := sextets_lt p v hv
    have hmem : a.symbol v ∈ spell b q k' := by
      rw [← hspell', hspell]
      exact List.mem_append_left _ (List.mem_map_of_mem hv)
    rcases value?_isSome_of_mem_spell hmem with hfiller | hsome
    · exact absurd hfiller (symbol_ne_filler a hlt)
    · exact symbol_eq_of_isSome a b hlt hsome
  have hread : decode b text = .ok p := by
    refine decode_eq_ok_iff.mpr ⟨k, hfits, ?_⟩
    rw [hspell, spell, spell, hsame]
  rw [hread] at hq
  exact Except.ok.inj hq

end BranchSync.Text.Base64
