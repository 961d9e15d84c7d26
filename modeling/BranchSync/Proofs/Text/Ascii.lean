import BranchSync.Text.Octets

/-!
# Texts of single octets

A character below 128 is written as the one octet of its number, every other character as
several octets that are all 128 or more. So a text of such characters is as long as its octet
string, and the blanks of a text can be removed before or after it is written as octets.
-/

namespace BranchSync.Text

/-- A character below 128 is one octet. -/
theorem utf8EncodeChar_ofNat {n : Nat} (h : n < 128) :
    String.utf8EncodeChar (Char.ofNat n) = [UInt8.ofNat n] := by
  revert n
  decide

/-- The octets of a text that was written with one character below 128 for each octet. -/
theorem octets_ofList_map {bytes : List UInt8} (h : ∀ b ∈ bytes, b.toNat < 128) :
    octets (String.ofList (bytes.map fun b => Char.ofNat b.toNat)) = bytes := by
  rw [octets, String.toList_ofList]
  induction bytes with
  | nil => rfl
  | cons b rest ih =>
    have hfirst : String.utf8EncodeChar (Char.ofNat b.toNat) = [b] := by
      rw [utf8EncodeChar_ofNat (h b List.mem_cons_self), UInt8.ofNat_toNat]
    rw [List.map_cons, List.flatMap_cons, hfirst,
      ih fun b' hb' => h b' (List.mem_cons_of_mem b hb')]
    rfl

/-- Texts with the same octets are the same. -/
theorem eq_of_octets_eq {s t : String} (h : octets s = octets t) : s = t := by
  apply String.toByteArray_inj.mp
  rw [← toByteArray_octets, ← toByteArray_octets, h]

/-- The characters that are ignored in an encoded payload. -/
def blanks : List Char := [' ', '\t', '\n', '\x0c', '\r']

/-- A text without its blanks. -/
def withoutBlanks (s : String) : String :=
  String.ofList (s.toList.filter fun c => c ∉ blanks)

/-- The octets of a character below 128 are blank exactly when the character is. -/
theorem filter_utf8EncodeChar_ofNat {n : Nat} (h : n < 128) :
    (String.utf8EncodeChar (Char.ofNat n)).filter (fun b => !isBlank b) =
      if Char.ofNat n ∈ blanks then [] else String.utf8EncodeChar (Char.ofNat n) := by
  revert n
  decide

/-- A number from 128 to 255 is kept by an octet. -/
theorem le_toNat_ofNat {n : Nat} (hlow : 128 ≤ n) (hhigh : n < 256) :
    128 ≤ (UInt8.ofNat n).toNat := by
  rw [UInt8.toNat_ofNat', Nat.mod_eq_of_lt hhigh]
  exact hlow

/-- Every octet of a character from 128 on is 128 or more. -/
theorem le_toNat_of_mem_utf8EncodeChar {c : Char} (h : 128 ≤ c.toNat) {b : UInt8}
    (hb : b ∈ String.utf8EncodeChar c) : 128 ≤ b.toNat := by
  have hval : 128 ≤ c.val.toNat := h
  unfold String.utf8EncodeChar at hb
  dsimp only at hb
  rw [if_neg (by omega)] at hb
  -- two, three or four octets, each with its high bit set
  split at hb
  · simp only [List.mem_cons, List.not_mem_nil, or_false] at hb
    rcases hb with rfl | rfl <;> exact le_toNat_ofNat (by omega) (by omega)
  · split at hb
    · simp only [List.mem_cons, List.not_mem_nil, or_false] at hb
      rcases hb with rfl | rfl | rfl <;> exact le_toNat_ofNat (by omega) (by omega)
    · simp only [List.mem_cons, List.not_mem_nil, or_false] at hb
      rcases hb with rfl | rfl | rfl | rfl <;> exact le_toNat_ofNat (by omega) (by omega)

/-- No octet from 128 on is blank. -/
theorem isBlank_of_le_toNat {b : UInt8} (h : 128 ≤ b.toNat) : isBlank b = false := by
  have hne (n : UInt8) (hn : n.toNat < 128) : (b == n) = false := by
    rw [beq_eq_false_iff_ne]
    intro hsame
    rw [hsame] at h
    omega
  rw [isBlank, hne 32 (by decide), hne 9 (by decide), hne 10 (by decide), hne 12 (by decide),
    hne 13 (by decide)]
  rfl

/-- The octets of a character are all blank or all not, as the character is. -/
theorem filter_utf8EncodeChar (c : Char) :
    (String.utf8EncodeChar c).filter (fun b => !isBlank b) =
      if c ∈ blanks then [] else String.utf8EncodeChar c := by
  by_cases hsmall : c.toNat < 128
  · have hascii := filter_utf8EncodeChar_ofNat hsmall
    rw [Char.ofNat_toNat] at hascii
    exact hascii
  · have hlarge : 128 ≤ c.toNat := Nat.le_of_not_lt hsmall
    have hnot : c ∉ blanks := by
      intro hmem
      have hall : blanks.all (fun c => decide (c.toNat < 128)) = true := by decide
      exact hsmall (of_decide_eq_true (List.all_eq_true.mp hall c hmem))
    rw [if_neg hnot, List.filter_eq_self]
    intro b hb
    rw [isBlank_of_le_toNat (le_toNat_of_mem_utf8EncodeChar hlarge hb)]
    rfl

/-- Blanks can be removed from a text or from its octets. -/
theorem octets_withoutBlanks (s : String) :
    octets (withoutBlanks s) = (octets s).filter fun b => !isBlank b := by
  unfold withoutBlanks octets
  rw [String.toList_ofList]
  induction s.toList with
  | nil => rfl
  | cons c rest ih =>
    rw [List.flatMap_cons, List.filter_append, filter_utf8EncodeChar, ← ih]
    by_cases hblank : c ∈ blanks
    · rw [List.filter_cons_of_neg (by simpa using hblank), if_pos hblank]
      rfl
    · rw [List.filter_cons_of_pos (by simpa using hblank), if_neg hblank, List.flatMap_cons]

end BranchSync.Text
