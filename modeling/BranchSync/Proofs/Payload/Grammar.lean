import BranchSync.Proofs.Payload.Transfer

/-!
# The grammar of a payload

What is accepted as the text of a pack, said in characters and without the reader: blanks apart, the
symbols of one alphabet and then, perhaps, signs that fill the last group of four. The symbols have
to be those that a pack is written with, whichever alphabet they are taken from; so there is no
freedom left in the unused bits of the last symbol. It follows that a pack is read back from any way
to write it, that a text means the same whichever alphabet is tried first, and that no text may mix
the symbols in which the alphabets differ.
-/

namespace BranchSync

namespace Text.Base64

/-- The sign that fills an incomplete last group. -/
def fillSign : Char := '='

/-- The characters of an alphabet in the order of their values. -/
def Alphabet.characters : Alphabet → List Char
  | .standard => "ABCDEFGHIJKLMNOPQRSTUVWXYZabcdefghijklmnopqrstuvwxyz0123456789+/".toList
  | .urlSafe => "ABCDEFGHIJKLMNOPQRSTUVWXYZabcdefghijklmnopqrstuvwxyz0123456789-_".toList

/-- A character of either alphabet as the standard alphabet writes it. -/
def toStandard (c : Char) : Char :=
  if c = '-' then '+' else if c = '_' then '/' else c

/-- The character of a six-bit value. -/
def Alphabet.letter (a : Alphabet) (v : Nat) : Char :=
  Char.ofNat (a.symbol v).toNat

/-- The characters of an alphabet are those of its values. -/
theorem characters_eq (a : Alphabet) : a.characters = (List.range 64).map a.letter := by
  cases a with
  | standard => decide +kernel
  | urlSafe => decide +kernel

/-- The octet of a character is the symbol of its value. -/
theorem utf8EncodeChar_letter (a : Alphabet) {v : Nat} (h : v < 64) :
    String.utf8EncodeChar (a.letter v) = [a.symbol v] := by
  rw [Alphabet.letter, utf8EncodeChar_ofNat (symbol_toNat_lt a h), UInt8.ofNat_toNat]

/-- A value is written by one character only. -/
theorem letter_inj {a : Alphabet} {v w : Nat} (hv : v < 64) (hw : w < 64)
    (h : a.letter v = a.letter w) : v = w := by
  have hsymbol : a.symbol v = a.symbol w := by
    have hoctets := utf8EncodeChar_letter a hv
    rw [h, utf8EncodeChar_letter a hw] at hoctets
    exact (List.cons.inj hoctets).1.symm
  have hvalue := value?_symbol a hv
  rw [hsymbol, value?_symbol a hw] at hvalue
  exact (Option.some.inj hvalue).symm

/-- No character of an alphabet is the fill sign. -/
theorem letter_ne_fillSign (a : Alphabet) {v : Nat} (h : v < 64) : a.letter v ≠ fillSign := by
  revert v
  cases a with
  | standard => decide
  | urlSafe => decide

/-- Both alphabets write a value alike once the characters are those of the standard alphabet. -/
theorem toStandard_letter (a : Alphabet) {v : Nat} (h : v < 64) :
    toStandard (a.letter v) = Alphabet.standard.letter v := by
  revert v
  cases a with
  | standard => decide
  | urlSafe => decide

/-- Characters of an alphabet are those of some values. -/
theorem exists_letters {a : Alphabet} {s : List Char} (h : ∀ c ∈ s, c ∈ a.characters) :
    ∃ values : List Nat, (∀ v ∈ values, v < 64) ∧ s = values.map a.letter := by
  induction s with
  | nil => exact ⟨[], List.forall_mem_nil _, rfl⟩
  | cons c rest ih =>
    obtain ⟨hc, hrest⟩ := List.forall_mem_cons.mp h
    obtain ⟨values, hvalues, rfl⟩ := ih hrest
    rw [characters_eq] at hc
    obtain ⟨v, hv, rfl⟩ := List.mem_map.mp hc
    exact ⟨v :: values, List.forall_mem_cons.mpr ⟨List.mem_range.mp hv, hvalues⟩, rfl⟩

/-- The characters of values are those of the alphabet. -/
theorem letter_mem_characters (a : Alphabet) {v : Nat} (h : v < 64) :
    a.letter v ∈ a.characters := by
  rw [characters_eq]
  exact List.mem_map_of_mem (List.mem_range.mpr h)

/-- The characters of a spelling: those of its values and signs that fill it. -/
def lettering (a : Alphabet) (values : List Nat) (k : Nat) : List Char :=
  values.map a.letter ++ List.replicate k fillSign

/-- The characters of values, with signs behind them, are written as symbols with filling. -/
theorem flatMap_lettering (a : Alphabet) {values : List Nat} (h : ∀ v ∈ values, v < 64) (k : Nat) :
    (lettering a values k).flatMap String.utf8EncodeChar =
      values.map a.symbol ++ List.replicate k filler := by
  rw [lettering, List.flatMap_append]
  congr 1
  · induction values with
    | nil => rfl
    | cons v rest ih =>
      obtain ⟨hv, hrest⟩ := List.forall_mem_cons.mp h
      rw [List.map_cons, List.flatMap_cons, utf8EncodeChar_letter a hv, ih hrest]
      rfl
  · induction k with
    | zero => rfl
    | succ k ih =>
      rw [List.replicate_succ, List.flatMap_cons, ih]
      rfl

/-- A text has the octets of a spelling exactly when it has its characters. -/
theorem octets_eq_spell_iff {a : Alphabet} {text : String} {bytes : List UInt8} {k : Nat} :
    octets text = spell a bytes k ↔ text.toList = lettering a (sextets bytes) k := by
  rw [spell, ← flatMap_lettering a (sextets_lt bytes)]
  constructor
  · intro h
    have hsame : text = String.ofList (lettering a (sextets bytes) k) := by
      apply eq_of_octets_eq
      rw [h, octets, String.toList_ofList]
    rw [hsame, String.toList_ofList]
  · intro h
    rw [octets, h]

/-- Values that are written alike are the same. -/
theorem map_letter_inj {a : Alphabet} {values others : List Nat} (h : ∀ v ∈ values, v < 64)
    (h' : ∀ v ∈ others, v < 64) (hsame : values.map a.letter = others.map a.letter) :
    values = others := by
  induction values generalizing others with
  | nil => exact (List.map_eq_nil_iff.mp hsame.symm).symm
  | cons v rest ih =>
    cases others with
    | nil => cases hsame
    | cons w others =>
      obtain ⟨hv, hrest⟩ := List.forall_mem_cons.mp h
      obtain ⟨hw, hothers⟩ := List.forall_mem_cons.mp h'
      obtain ⟨hhead, htail⟩ := List.cons.inj hsame
      rw [letter_inj hv hw hhead, ih hrest hothers htail]

/-- No alphabet has characters of both kinds in which the two differ. -/
theorem not_mem_of_mem_characters {a : Alphabet} {c d : Char} (hc : c = '-' ∨ c = '_')
    (hd : d = '+' ∨ d = '/') (h : c ∈ a.characters) : d ∉ a.characters := by
  cases a with
  | standard =>
    rcases hc with rfl | rfl
    · exact absurd h (by decide)
    · exact absurd h (by decide)
  | urlSafe =>
    rcases hd with rfl | rfl
    · decide
    · decide

end Text.Base64

namespace Payload

open Text

/-- The text of an outgoing pack without the signs that fill it. -/
def unfilled (bytes : List UInt8) : List Char :=
  (encode bytes).toList.filter (· ≠ Base64.fillSign)

/-- The characters that are read as a pack: those of one alphabet, which are those of the outgoing
pack but for the alphabet, and behind them signs that fit. -/
def Spells (bytes : List UInt8) (w : List Char) : Prop :=
  ∃ (s : List Char) (k : Nat), w = s ++ List.replicate k Base64.fillSign ∧
    (∃ a : Base64.Alphabet, ∀ c ∈ s, c ∈ a.characters) ∧ Base64.Fits s.length k ∧
    s.map Base64.toStandard = unfilled bytes

/-- The characters of an outgoing pack. -/
theorem toList_encode (bytes : List UInt8) :
    (encode bytes).toList = Base64.lettering .standard (Base64.sextets bytes)
      (Base64.lacking (Base64.sextets bytes).length) := by
  apply Base64.octets_eq_spell_iff.mp
  rw [octets_encode, Base64.encodeOctets_eq, Base64.spell]

/-- Without its filling an outgoing pack consists of the characters of its values. -/
theorem unfilled_eq (bytes : List UInt8) :
    unfilled bytes = (Base64.sextets bytes).map Base64.Alphabet.standard.letter := by
  have hsymbols : ((Base64.sextets bytes).map Base64.Alphabet.standard.letter).filter
      (· ≠ Base64.fillSign) = (Base64.sextets bytes).map Base64.Alphabet.standard.letter := by
    rw [List.filter_eq_self]
    intro c hc
    obtain ⟨v, hv, rfl⟩ := List.mem_map.mp hc
    exact decide_eq_true (Base64.letter_ne_fillSign .standard (Base64.sextets_lt bytes v hv))
  rw [unfilled, toList_encode, Base64.lettering, List.filter_append, hsymbols]
  simp

/-- An outgoing pack is filled with what its last group lacks. -/
theorem count_fillSign_encode (bytes : List UInt8) :
    (encode bytes).toList.count Base64.fillSign =
      Base64.lacking (Base64.sextets bytes).length := by
  have hnone : ((Base64.sextets bytes).map Base64.Alphabet.standard.letter).count
      Base64.fillSign = 0 := by
    rw [List.count_eq_zero]
    intro hmem
    obtain ⟨v, hv, hletter⟩ := List.mem_map.mp hmem
    exact Base64.letter_ne_fillSign .standard (Base64.sextets_lt bytes v hv) hletter
  rw [toList_encode, Base64.lettering, List.count_append, hnone, List.count_replicate_self,
    Nat.zero_add]

/-- A text is read as what one of the alphabets makes of it. -/
theorem decode_eq_ok_iff_exists {text : String} {bytes : List UInt8} :
    decode text = .ok bytes ↔
      ∃ a, Base64.decode a (octets (withoutBlanks text)) = .ok bytes := by
  rw [octets_withoutBlanks]
  unfold decode decodeCompact
  constructor
  · intro h
    cases hurl : Base64.decode .urlSafe ((octets text).filter fun b => !isBlank b) with
    | ok other =>
      simp only [hurl, Except.ok.injEq] at h
      exact ⟨.urlSafe, by rw [hurl, h]⟩
    | error first =>
      cases hstandard : Base64.decode .standard ((octets text).filter fun b => !isBlank b) with
      | ok other =>
        simp only [hurl, hstandard, Except.ok.injEq] at h
        exact ⟨.standard, by rw [hstandard, h]⟩
      | error second => simp [hurl, hstandard] at h
  · rintro ⟨a, ha⟩
    cases hurl : Base64.decode .urlSafe ((octets text).filter fun b => !isBlank b) with
    | ok other => rw [Base64.decode_unique hurl ha]
    | error first =>
      cases a with
      | urlSafe => rw [hurl] at ha; cases ha
      | standard => rw [ha]

/-- The characters that one alphabet reads as a pack. -/
theorem decode_octets_eq_ok_iff {a : Base64.Alphabet} {text : String} {bytes : List UInt8} :
    Base64.decode a (octets text) = .ok bytes ↔
      ∃ (s : List Char) (k : Nat), text.toList = s ++ List.replicate k Base64.fillSign ∧
        (∀ c ∈ s, c ∈ a.characters) ∧ Base64.Fits s.length k ∧
        s.map Base64.toStandard = unfilled bytes := by
  have hvalues := Base64.sextets_lt bytes
  rw [Base64.decode_eq_ok_iff, unfilled_eq]
  constructor
  · rintro ⟨k, hfits, hspell⟩
    refine ⟨(Base64.sextets bytes).map a.letter, k, Base64.octets_eq_spell_iff.mp hspell, ?_, ?_,
      ?_⟩
    · intro c hc
      obtain ⟨v, hv, rfl⟩ := List.mem_map.mp hc
      exact Base64.letter_mem_characters a (hvalues v hv)
    · rw [List.length_map]
      exact hfits
    · rw [List.map_map]
      apply List.map_congr_left
      intro v hv
      exact Base64.toStandard_letter a (hvalues v hv)
  · rintro ⟨s, k, htext, halphabet, hfits, hstandard⟩
    obtain ⟨values, hlt, rfl⟩ := Base64.exists_letters halphabet
    have hsame : values = Base64.sextets bytes := by
      apply Base64.map_letter_inj hlt hvalues
      rw [← hstandard, List.map_map]
      apply List.map_congr_left
      intro v hv
      exact (Base64.toStandard_letter a (hlt v hv)).symm
    rw [List.length_map, hsame] at hfits
    refine ⟨k, hfits, Base64.octets_eq_spell_iff.mpr ?_⟩
    rw [htext, hsame, Base64.lettering]

/-- A text is read as a pack exactly when, blanks apart, its characters spell the pack. -/
theorem decode_eq_ok_iff_spells {text : String} {bytes : List UInt8} :
    decode text = .ok bytes ↔ Spells bytes (withoutBlanks text).toList := by
  rw [decode_eq_ok_iff_exists]
  constructor
  · rintro ⟨a, ha⟩
    obtain ⟨s, k, hw, halphabet, hrest⟩ := decode_octets_eq_ok_iff.mp ha
    exact ⟨s, k, hw, ⟨a, halphabet⟩, hrest⟩
  · rintro ⟨s, k, hw, ⟨a, halphabet⟩, hrest⟩
    exact ⟨a, decode_octets_eq_ok_iff.mpr ⟨s, k, hw, halphabet, hrest⟩⟩

/-- The characters of an outgoing pack, in either alphabet and with some or all of the filling
dropped, spell the pack. -/
theorem spells_of_le_count {bytes : List UInt8} {s : List Char} {k : Nat} {a : Base64.Alphabet}
    (halphabet : ∀ c ∈ s, c ∈ a.characters) (hsame : s.map Base64.toStandard = unfilled bytes)
    (hk : k ≤ (encode bytes).toList.count Base64.fillSign) :
    Spells bytes (s ++ List.replicate k Base64.fillSign) := by
  have hlength : s.length = (Base64.sextets bytes).length := by
    have hlengths := congrArg List.length hsame
    rw [unfilled_eq, List.length_map, List.length_map] at hlengths
    exact hlengths
  rw [count_fillSign_encode] at hk
  refine ⟨s, k, rfl, ⟨a, halphabet⟩, ?_, hsame⟩
  rw [hlength]
  exact Base64.fits_iff_le_lacking.mpr hk

/-- Characters that spell a pack are not from both alphabets. -/
theorem not_spells_of_mixed {w : List Char} {c d : Char} (hc : c = '-' ∨ c = '_')
    (hd : d = '+' ∨ d = '/') (hcw : c ∈ w) (hdw : d ∈ w) (bytes : List UInt8) :
    ¬ Spells bytes w := by
  rintro ⟨s, k, rfl, ⟨a, halphabet⟩, -, -⟩
  have hkeep {e : Char} (hne : e ≠ Base64.fillSign)
      (he : e ∈ s ++ List.replicate k Base64.fillSign) : e ∈ s := by
    rcases List.mem_append.mp he with hs | hfill
    · exact hs
    · exact absurd (List.eq_of_mem_replicate hfill) hne
  have hcs : c ∈ s := hkeep (by rcases hc with rfl | rfl <;> decide) hcw
  have hds : d ∈ s := hkeep (by rcases hd with rfl | rfl <;> decide) hdw
  exact Base64.not_mem_of_mem_characters hc hd (halphabet c hcs) (halphabet d hds)

/-- No pack leaves a single symbol over. -/
theorem length_unfilled_mod_four (bytes : List UInt8) : (unfilled bytes).length % 4 ≠ 1 := by
  have hcount := Base64.length_sextets bytes
  rw [unfilled_eq, List.length_map]
  omega

/-- The text of a pack. With `w` the text without its blanks: it is read as an octet string exactly
when `w` consists of symbols of one alphabet, those of the octet string as it is sent, and of fill
signs that fit; there is never a single symbol left over. So every way to write an octet string,
with blanks anywhere, in either alphabet and with the filling kept or dropped, is read as this octet
string. The reading is that of either alphabet which reads the text at all, whichever is tried
first, and a text with symbols in which the alphabets differ from both is refused. -/
theorem decode_grammar (text : String) :
    (∀ bytes, decode text = .ok bytes ↔ Spells bytes (withoutBlanks text).toList) ∧
    (∀ bytes, (unfilled bytes).length % 4 ≠ 1) ∧
    (∀ (bytes : List UInt8) (a : Base64.Alphabet) (s : List Char) (k : Nat),
      (withoutBlanks text).toList = s ++ List.replicate k Base64.fillSign →
      (∀ c ∈ s, c ∈ a.characters) → s.map Base64.toStandard = unfilled bytes →
      k ≤ (encode bytes).toList.count Base64.fillSign → decode text = .ok bytes) ∧
    (∀ (a : Base64.Alphabet) (bytes : List UInt8),
      Base64.decode a (octets (withoutBlanks text)) = .ok bytes → decode text = .ok bytes) ∧
    (∀ c d : Char, (c = '-' ∨ c = '_') → (d = '+' ∨ d = '/') →
      c ∈ (withoutBlanks text).toList → d ∈ (withoutBlanks text).toList →
      ∃ refusal, decode text = .error refusal) := by
  refine ⟨fun bytes => decode_eq_ok_iff_spells, length_unfilled_mod_four, ?_, ?_, ?_⟩
  · intro bytes a s k hw halphabet hsame hk
    rw [decode_eq_ok_iff_spells, hw]
    exact spells_of_le_count halphabet hsame hk
  · intro a bytes h
    exact decode_eq_ok_iff_exists.mpr ⟨a, h⟩
  · intro c d hc hd hcw hdw
    cases hread : decode text with
    | error refusal => exact ⟨refusal, rfl⟩
    | ok bytes =>
      exact absurd (decode_eq_ok_iff_spells.mp hread) (not_spells_of_mixed hc hd hcw hdw bytes)

/-- Two octets in the other alphabet, with a line break inside and without their filling, are read;
with symbols of both alphabets they are refused. -/
theorem broken_line_read_and_mixture_refused :
    decode "-_\n8" = .ok [0xfb, 0xff] ∧ ∃ refusal, decode "+_8=" = .error refusal := by
  obtain ⟨-, -, hread, -, -⟩ := decode_grammar "-_\n8"
  obtain ⟨-, -, -, -, hmixed⟩ := decode_grammar "+_8="
  have hall : "-_8".toList.all (· ∈ Base64.Alphabet.urlSafe.characters) = true := by
    decide +kernel
  constructor
  · refine hread [0xfb, 0xff] .urlSafe "-_8".toList 0 (by decide +kernel) ?_ (by decide +kernel)
      (Nat.zero_le _)
    intro c hc
    exact of_decide_eq_true (List.all_eq_true.mp hall c hc)
  · exact hmixed '_' '+' (Or.inr rfl) (Or.inl rfl) (by decide +kernel) (by decide +kernel)

end Payload

end BranchSync
