import BranchSync.Toml.Quotation
import BranchSync.Toml.Writer
import Mathlib.Tactic.SplitIfs

/-!
# Reading back quoted texts

A text is read back from the quotation that is chosen for it. Between double quotes a character
stands for itself or is spelled by an escape, and a reader takes one spelling at a time. Between three
quotes, the quotes of the text itself are what matters: never three of them are written in a row, so
the first three quotes are the closing ones, and up to two that follow them belong to the text. The
two readers of such texts differ only in the spellings they know, so this is said once for both.
-/

namespace BranchSync.Toml

variable {quote : Char} {read : List Char → Quotation} {spells : List Char → Char → Prop}
  {written text rest : List Char}

/-- A character before the quoted ones is put in front of them. -/
@[simp] theorem Quotation.push_some (c : Char) (text rest : List Char) :
    Quotation.push c (some (text, rest)) = some (c :: text, rest) :=
  rfl

/-- A character that there is stands before the quoted ones. -/
@[simp] theorem Quotation.push?_some (c : Char) (q : Quotation) :
    Quotation.push? (some c) q = q.push c :=
  rfl

/-- What stands for a character between double quotes. -/
inductive Spells : List Char → Char → Prop where
  /-- A character without a special meaning stands for itself. -/
  | itself {c : Char} (h : isBasicChar c = true) : Spells [c] c
  /-- A letter after a backslash. -/
  | short {letter c : Char} (h : shortEscape? letter = some c) : Spells ['\\', letter] c
  /-- The number of the character, in four digits. -/
  | numeric {a b d e c : Char} (h : numericEscape? [a, b, d, e] = some c) :
      Spells ['\\', 'u', a, b, d, e] c

/-- A control character is spelled by its number. -/
theorem spells_numericEscape {c : Char} (h : c.toNat < 0x20 ∨ c.toNat = 0x7f) :
    Spells (numericEscape c) c := by
  have hread : ∀ n < 128, numericEscape? ['0', '0', upperDigit (n / 16), upperDigit (n % 16)] =
      some (Char.ofNat n) := by
    decide
  have hc := hread c.toNat (by omega)
  rw [Char.ofNat_toNat] at hc
  exact .numeric hc

/-- Every character but a quote is written as it is spelled. -/
theorem spells_escapeCommon {c : Char} (hquote : c ≠ '\x22') : Spells (escapeCommon c) c := by
  unfold escapeCommon
  split_ifs with hb ht hf hr hslash hcontrol
  · subst hb
    exact .short rfl
  · subst ht
    exact .short rfl
  · subst hf
    exact .short rfl
  · subst hr
    exact .short rfl
  · subst hslash
    exact .short rfl
  · exact spells_numericEscape hcontrol
  · refine .itself ?_
    simp only [isBasicChar, isVisible, Bool.and_eq_true, Bool.or_eq_true, bne_iff_ne, beq_iff_eq,
      decide_eq_true_eq]
    exact ⟨⟨.inr (by omega), hquote⟩, hslash⟩

/-- Every character is written as it is spelled. -/
theorem spells_escapeBasic (c : Char) : Spells (escapeBasic c) c := by
  unfold escapeBasic
  split_ifs with hquote hline
  · subst hquote
    exact .short rfl
  · subst hline
    exact .short rfl
  · exact spells_escapeCommon hquote

/-- A letter of an escape is no character without an escape. -/
theorem ne_of_shortEscape? {letter other c : Char} (h : shortEscape? letter = some c)
    (hother : shortEscape? other = none) : letter ≠ other := by
  rintro rfl
  rw [hother] at h
  cases h

/-- The reader of a text between double quotes takes one spelling. -/
theorem Spells.readBasic_append {spelling : List Char} {c : Char} (h : Spells spelling c) :
    readBasic (spelling ++ rest) = (readBasic rest).push c := by
  cases h with
  | itself h =>
    have hslash : c ≠ '\\' := ne_of_class h (by decide)
    have hquote : c ≠ '\x22' := ne_of_class h (by decide)
    simp [readBasic, hslash, hquote, h]
  | @short letter c h =>
    have hu : letter ≠ 'u' := ne_of_shortEscape? h rfl
    have hU : letter ≠ 'U' := ne_of_shortEscape? h rfl
    simp [readBasic, hu, hU, h]
  | numeric h => simp [readBasic, h]

/-- A text between double quotes is read back. -/
theorem readBasic_flatMap (text rest : List Char) :
    readBasic (text.flatMap escapeBasic ++ '\x22' :: rest) = some (text, rest) := by
  induction text with
  | nil => simp [readBasic]
  | cons c text ih =>
    rw [List.flatMap_cons, List.append_assoc, (spells_escapeBasic c).readBasic_append, ih,
      Quotation.push_some]

/-- A text between single quotes is read back, if no character of it needs an escape. -/
theorem readLiteral_append (h : ∀ c ∈ text, isLiteralChar c = true) :
    readLiteral (text ++ '\x27' :: rest) = some (text, rest) := by
  induction text with
  | nil => simp [readLiteral]
  | cons c text ih =>
    have hc : isLiteralChar c = true := h c List.mem_cons_self
    have hquote : c ≠ '\x27' := by
      rintro rfl
      exact absurd hc (by decide)
    rw [List.cons_append, readLiteral, if_neg hquote, if_pos hc,
      ih fun x hx => h x (List.mem_cons_of_mem c hx), Quotation.push_some]

/-- How a text is written between three quotes: of its own quotes not more than two in a row, where
`quotes` of them come right before, and every other character in a spelling. -/
inductive WrittenLong (quote : Char) (spells : List Char → Char → Prop) :
    (quotes : Nat) → (written text : List Char) → Prop where
  | done (quotes : Nat) : WrittenLong quote spells quotes [] []
  | quote {quotes : Nat} {written text : List Char} (h : quotes < 2)
      (later : WrittenLong quote spells (quotes + 1) written text) :
      WrittenLong quote spells quotes (quote :: written) (quote :: text)
  | spelled {quotes : Nat} {spelling written text : List Char} {c : Char} (h : spells spelling c)
      (later : WrittenLong quote spells 0 written text) :
      WrittenLong quote spells quotes (spelling ++ written) (c :: text)

/-- A reader of texts between three quotes, and the spellings that it takes. A spelling begins with
neither a quote nor, unless it stands for a line end, the beginning of one. -/
structure ReadsLong (quote : Char) (read : List Char → Quotation)
    (spells : List Char → Char → Prop) : Prop where
  closes : ∀ rest, read (quote :: quote :: quote :: rest) = closeLong quote rest
  takesQuote : ∀ input, (∀ rest, input ≠ quote :: quote :: rest) →
    read (quote :: input) = (read input).push quote
  takes : ∀ {spelling : List Char} {c : Char}, spells spelling c →
    ∀ rest, read (spelling ++ rest) = (read rest).push c
  begins : ∀ {spelling : List Char} {c : Char}, spells spelling c →
    ∃ first more, spelling = first :: more ∧ first ≠ quote ∧
      (c ≠ '\n' → first ≠ '\n' ∧ first ≠ '\r')

/-- Quotes at the end of a text, as many as may be written in a row, belong to it. -/
theorem closeLong_replicate {count : Nat} (hcount : count ≤ 2) (hrest : rest.head? ≠ some quote) :
    closeLong quote (List.replicate count quote ++ rest) =
      some (List.replicate count quote, rest) := by
  match count, hcount with
  | 0, _ =>
    match rest with
    | [] => rfl
    | [a] =>
      have ha : a ≠ quote := by simpa using hrest
      simp [closeLong, ha]
    | a :: b :: rest =>
      have ha : a ≠ quote := by simpa using hrest
      simp [closeLong, ha]
  | 1, _ =>
    cases rest with
    | nil => simp [closeLong]
    | cons a rest =>
      have ha : a ≠ quote := by simpa using hrest
      simp [closeLong, ha]
  | 2, _ => simp [closeLong]

/-- A text between three quotes is read back from how it is written. -/
theorem ReadsLong.read_append (hread : ReadsLong quote read spells)
    (hrest : rest.head? ≠ some quote) {quotes : Nat}
    (h : WrittenLong quote spells quotes written text) :
    read (written ++ quote :: quote :: quote :: rest) = some (text, rest) := by
  have hnone : closeLong quote rest = some ([], rest) :=
    closeLong_replicate (Nat.zero_le 2) hrest
  have hone : closeLong quote (quote :: rest) = some ([quote], rest) :=
    closeLong_replicate (Nat.le_succ 1) hrest
  have htwo : closeLong quote (quote :: quote :: rest) = some ([quote, quote], rest) :=
    closeLong_replicate (Nat.le_refl 2) hrest
  induction h with
  | done quotes => rw [List.nil_append, hread.closes, hnone]
  | spelled h later ih => rw [List.append_assoc, hread.takes h, ih, Quotation.push_some]
  | quote h later ih =>
    rw [List.cons_append]
    -- Whether this quote is one of the closing three depends on the next two characters.
    cases later with
    | done => rw [List.nil_append, hread.closes, hone]
    | spelled hspells later =>
      obtain ⟨first, more, rfl, hfirst, -⟩ := hread.begins hspells
      rw [hread.takesQuote _ (by simp [hfirst]), ih, Quotation.push_some]
    | quote hsecond later =>
      cases later with
      | done => rw [List.cons_append, List.nil_append, hread.closes, htwo]
      | spelled hspells later =>
        obtain ⟨first, more, rfl, hfirst, -⟩ := hread.begins hspells
        rw [hread.takesQuote _ (by simp [hfirst]), ih, Quotation.push_some]
      | quote hthird later => omega

/-- The line end that is skipped after the opening quotes is the one that was written there. -/
theorem ReadsLong.skipFirstNewline_append (hread : ReadsLong quote read spells)
    (hquote : quote ≠ '\n' ∧ quote ≠ '\r') {quotes : Nat}
    (h : WrittenLong quote spells quotes written text) :
    skipFirstNewline (openingNewline text ++ (written ++ quote :: rest)) =
      written ++ quote :: rest := by
  by_cases hline : text.any (· == '\n') = true
  · rw [openingNewline, if_pos hline]
    rfl
  · have hfirst : ∃ first more, written ++ quote :: rest = first :: more ∧
        first ≠ '\n' ∧ first ≠ '\r' := by
      cases h with
      | done => exact ⟨quote, rest, rfl, hquote⟩
      | quote h later => exact ⟨quote, _, rfl, hquote⟩
      | spelled h later =>
        obtain ⟨first, more, rfl, -, hplain⟩ := hread.begins h
        exact ⟨first, _, rfl, hplain fun hc => hline (by simp [hc])⟩
    obtain ⟨first, more, hfirst, hnewline, hreturn⟩ := hfirst
    rw [openingNewline, if_neg hline, List.nil_append, hfirst]
    simp [skipFirstNewline, afterNewline?, hnewline, hreturn]

/-- What stands for a character between three double quotes: what does between one, and a line end. -/
def SpellsLong (spelling : List Char) (c : Char) : Prop :=
  Spells spelling c ∨ (spelling = ['\n'] ∧ c = '\n')

/-- The reader of a text between three double quotes takes one spelling. -/
theorem Spells.readLongBasic_append {spelling : List Char} {c : Char} (h : Spells spelling c) :
    readLongBasic .text (spelling ++ rest) = (readLongBasic .text rest).push c := by
  cases h with
  | itself h =>
    have hslash : c ≠ '\\' := ne_of_class h (by decide)
    have hquote : c ≠ '\x22' := ne_of_class h (by decide)
    have hreturn : c ≠ '\r' := ne_of_class h (by decide)
    simp [readLongBasic, hslash, hquote, hreturn, h]
  | @short letter c h =>
    have hspace : letter ≠ ' ' := ne_of_shortEscape? h rfl
    have htab : letter ≠ '\t' := ne_of_shortEscape? h rfl
    have hu : letter ≠ 'u' := ne_of_shortEscape? h rfl
    have hU : letter ≠ 'U' := ne_of_shortEscape? h rfl
    have hreturn : letter ≠ '\r' := ne_of_shortEscape? h rfl
    have hline : letter ≠ '\n' := ne_of_shortEscape? h rfl
    simp [readLongBasic, isBlank, hspace, htab, hu, hU, hreturn, hline, h]
  | numeric h => simp [readLongBasic, h]

/-- The reader of a text between three double quotes takes every spelling. -/
theorem readsLong_basic : ReadsLong '\x22' (readLongBasic .text) SpellsLong where
  closes rest := by simp [readLongBasic]
  takesQuote input h := by simp [readLongBasic, h]
  takes h rest := by
    rcases h with h | ⟨rfl, rfl⟩
    · exact h.readLongBasic_append
    · simp [readLongBasic]
  begins h := by
    rcases h with h | ⟨rfl, rfl⟩
    · cases h with
      | itself h =>
        exact ⟨_, [], rfl, ne_of_class h (by decide),
          fun hline => ⟨hline, ne_of_class h (by decide)⟩⟩
      | short h => exact ⟨_, _, rfl, by decide, fun _ => by decide⟩
      | numeric h => exact ⟨_, _, rfl, by decide, fun _ => by decide⟩
    · exact ⟨_, [], rfl, by decide, fun hline => absurd rfl hline⟩

/-- What stands for a character between three single quotes: the character. -/
def StandsForItself (spelling : List Char) (c : Char) : Prop :=
  spelling = [c] ∧ (c = '\n' ∨ isLiteralChar c = true)

/-- A character that may stand between three single quotes is none that may not. -/
theorem ne_of_standsForItself {c other : Char} (h : c = '\n' ∨ isLiteralChar c = true)
    (hother : isLiteralChar other = false) (hline : other ≠ '\n') : c ≠ other := by
  rcases h with rfl | h
  · exact hline.symm
  · exact ne_of_class h hother

/-- The reader of a text between three single quotes takes every character. -/
theorem readsLong_literal : ReadsLong '\x27' readLongLiteral StandsForItself where
  closes rest := by simp [readLongLiteral]
  takesQuote input h := by simp [readLongLiteral, h]
  takes h rest := by
    obtain ⟨rfl, hc⟩ := h
    have hquote := ne_of_standsForItself hc (show isLiteralChar '\x27' = false by decide) (by decide)
    have hreturn := ne_of_standsForItself hc (show isLiteralChar '\r' = false by decide) (by decide)
    simp [readLongLiteral, hquote, hreturn, hc]
  begins h := by
    obtain ⟨rfl, hc⟩ := h
    exact ⟨_, [], rfl,
      ne_of_standsForItself hc (show isLiteralChar '\x27' = false by decide) (by decide),
      fun hline => ⟨hline,
        ne_of_standsForItself hc (show isLiteralChar '\r' = false by decide) (by decide)⟩⟩

/-- The longest run of quotes is at least as long as the one that the text begins in. -/
theorem le_longestRun (quote : Char) (current : Nat) (text : List Char) :
    current ≤ longestRun quote current text := by
  induction text generalizing current with
  | nil => exact Nat.le_refl current
  | cons c text ih =>
    rw [longestRun]
    split
    · exact Nat.le_of_succ_le (ih (current + 1))
    · exact Nat.le_max_left _ _

/-- A text between three single quotes is written as it is, if it needs no escapes. -/
theorem writtenLong_self {quotes : Nat} (hrun : longestRun '\x27' quotes text ≤ 2)
    (h : ∀ c ∈ text, c = '\x27' ∨ c = '\n' ∨ isLiteralChar c = true) :
    WrittenLong '\x27' StandsForItself quotes text text := by
  induction text generalizing quotes with
  | nil => exact .done quotes
  | cons c text ih =>
    have hlater : ∀ x ∈ text, x = '\x27' ∨ x = '\n' ∨ isLiteralChar x = true :=
      fun x hx => h x (List.mem_cons_of_mem c hx)
    by_cases hquote : c = '\x27'
    · subst hquote
      rw [longestRun, if_pos rfl] at hrun
      have hle := le_longestRun '\x27' (quotes + 1) text
      exact .quote (by omega) (ih hrun hlater)
    · rw [longestRun, if_neg hquote] at hrun
      have hc := (h c List.mem_cons_self).resolve_left hquote
      exact .spelled ⟨rfl, hc⟩ (ih (by omega) hlater)

/-- A text is written between three double quotes with every third quote in a row escaped. -/
theorem writtenLong_escapeLong (quotes : Nat) (text : List Char) :
    WrittenLong '\x22' SpellsLong quotes (escapeLong quotes text) text := by
  induction text generalizing quotes with
  | nil => exact .done quotes
  | cons c text ih =>
    unfold escapeLong
    split_ifs with hquote hfew hline
    · subst hquote
      exact .quote hfew (ih (quotes + 1))
    · subst hquote
      have hescaped : SpellsLong ['\\', '\x22'] '\x22' := .inl (.short rfl)
      exact .spelled hescaped (ih 0)
    · subst hline
      exact .spelled (.inr ⟨rfl, rfl⟩) (ih 0)
    · exact .spelled (.inl (spells_escapeCommon hquote)) (ih 0)

/-- A character that needs no escape between quotes is a quote, ends a line, or stands for itself. -/
theorem isLiteralChar_of_not_isUnquotable {c : Char} (h : ¬ isUnquotable c = true)
    (hquote : c ≠ '\x27') (hline : c ≠ '\n') : isLiteralChar c = true := by
  by_cases htab : c = '\t'
  · rw [htab]
    decide
  · have hnumber : 0x20 ≤ c.toNat ∧ c.toNat ≠ 0x7f := by simpa [isUnquotable, htab, hline] using h
    simp [isLiteralChar, isVisible, hnumber, hquote]

/-- A quotation without escapes is chosen only for a text that fits into it. -/
theorem QuoteStyle.fits_choose (text : List Char)
    (h : choose text = .literal ∨ choose text = .longLiteral) : (choose text).fits text = true := by
  unfold choose at h ⊢
  split_ifs at h ⊢ <;> simp_all

/-- A text that fits between single quotes has no character that may not stand there. -/
theorem QuoteStyle.isLiteralChar_of_fits (h : fits .literal text = true) :
    ∀ c ∈ text, isLiteralChar c = true := by
  intro c hc
  simp only [fits, Bool.and_eq_true, Bool.not_eq_true', List.any_eq_false, Bool.or_eq_true,
    beq_iff_eq, not_or] at h
  obtain ⟨hquote, hline⟩ := h.2 c hc
  exact isLiteralChar_of_not_isUnquotable (h.1 c hc) hquote hline

/-- A text that fits between three single quotes is written there as it is. -/
theorem QuoteStyle.writtenLong_of_fits (h : fits .longLiteral text = true) :
    WrittenLong '\x27' StandsForItself 0 text text := by
  simp only [fits, Bool.and_eq_true, Bool.not_eq_true', List.any_eq_false, decide_eq_true_eq] at h
  refine writtenLong_self h.2 fun c hc => ?_
  by_cases hquote : c = '\x27'
  · exact .inl hquote
  · by_cases hline : c = '\n'
    · exact .inr (.inl hline)
    · exact .inr (.inr (isLiteralChar_of_not_isUnquotable (h.1 c hc) hquote hline))

/-- A text between double quotes is not taken for one between three. -/
theorem readQuoted_basic (text : List Char) (hrest : rest.head? ≠ some '\x22') :
    readQuoted (quoteAs .basic text ++ rest) = some (text, rest) := by
  have hopens : ∀ more, text.flatMap escapeBasic ++ '\x22' :: rest ≠ '\x22' :: '\x22' :: more := by
    cases text with
    | nil =>
      rintro more h
      rw [(List.cons.inj h).2] at hrest
      exact hrest rfl
    | cons c text =>
      obtain ⟨first, more, hspelling, hfirst, -⟩ :=
        readsLong_basic.begins (.inl (spells_escapeBasic c))
      simp [hspelling, hfirst]
  simp only [quoteAs, List.append_assoc, List.cons_append, List.nil_append]
  rw [readQuoted, readBasic_flatMap]
  exact hopens

/-- A text between single quotes is not taken for one between three. -/
theorem readQuoted_literal (h : QuoteStyle.fits .literal text = true)
    (hrest : rest.head? ≠ some '\x27') :
    readQuoted (quoteAs .literal text ++ rest) = some (text, rest) := by
  have hplain := QuoteStyle.isLiteralChar_of_fits h
  have hopens : ∀ more, text ++ '\x27' :: rest ≠ '\x27' :: '\x27' :: more := by
    cases text with
    | nil =>
      rintro more h
      rw [(List.cons.inj h).2] at hrest
      exact hrest rfl
    | cons c text =>
      have hquote : c ≠ '\x27' :=
        ne_of_class (hplain c List.mem_cons_self) (by decide)
      simp [hquote]
  simp only [quoteAs, List.append_assoc, List.cons_append, List.nil_append]
  rw [readQuoted, readLiteral_append hplain]
  exact hopens

/-- Every text is read back from between three double quotes. -/
theorem readQuoted_longBasic (text : List Char) (hrest : rest.head? ≠ some '\x22') :
    readQuoted (quoteAs .longBasic text ++ rest) = some (text, rest) := by
  have hwritten := writtenLong_escapeLong 0 text
  simp only [quoteAs, List.append_assoc, List.cons_append, List.nil_append, readQuoted]
  rw [readsLong_basic.skipFirstNewline_append (by decide) hwritten,
    readsLong_basic.read_append hrest hwritten]

/-- A text that fits between three single quotes is read back from there. -/
theorem readQuoted_longLiteral (h : QuoteStyle.fits .longLiteral text = true)
    (hrest : rest.head? ≠ some '\x27') :
    readQuoted (quoteAs .longLiteral text ++ rest) = some (text, rest) := by
  have hwritten := QuoteStyle.writtenLong_of_fits h
  simp only [quoteAs, List.append_assoc, List.cons_append, List.nil_append, readQuoted]
  rw [readsLong_literal.skipFirstNewline_append (by decide) hwritten,
    readsLong_literal.read_append hrest hwritten]

/-- A quoted text is read back, if no quote follows it. -/
theorem readQuoted_quoteAs (text : List Char) (hbasic : rest.head? ≠ some '\x22')
    (hliteral : rest.head? ≠ some '\x27') :
    readQuoted (quoteAs (.choose text) text ++ rest) = some (text, rest) := by
  have hfits := QuoteStyle.fits_choose text
  cases hstyle : QuoteStyle.choose text with
  | basic => exact readQuoted_basic text hbasic
  | literal =>
    rw [hstyle] at hfits
    exact readQuoted_literal (hfits (.inl rfl)) hliteral
  | longBasic => exact readQuoted_longBasic text hbasic
  | longLiteral =>
    rw [hstyle] at hfits
    exact readQuoted_longLiteral (hfits (.inr rfl)) hliteral

-- The third of four quotes in a row is escaped, and the line end before the text is not part of it.
example : Toml.quote "\x27\x27\x27\x22\x22\x22\x22\n\x07" =
    "\x22\x22\x22\n\x27\x27\x27\x22\x22\\\x22\x22\n\\u0007\x22\x22\x22" := by
  decide

end BranchSync.Toml
