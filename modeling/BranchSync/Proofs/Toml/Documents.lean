import BranchSync.Proofs.Toml.Integers
import BranchSync.Proofs.Toml.Quotations

/-!
# Reading back documents

A document of simple values under different keys is read back as its keys with their values. Every
line holds one assignment: its key ends before the blank and the equals sign, and its value is read
up to the end of the line. A quoted text may hold line ends of its own, so a line here is all that an
assignment takes up.
-/

namespace BranchSync.Toml

open Text.Scan

variable {key : String} {value : Scalar}

namespace Scalar

/-- What a value stands for in a document. -/
def item : Scalar → Item
  | .string value => .string value
  | .integer value => .integer value
  | .boolean value => .boolean value

/-- Which values can be written: integers are bounded. -/
def Writable : Scalar → Prop
  | .integer value => value < integerBound
  | _ => True

/-- A value that begins with a quote is read as a text. -/
theorem readScalar_quoteAs (style : QuoteStyle) (text rest : List Char) :
    readScalar (quoteAs style text ++ rest) =
      (readQuoted (quoteAs style text ++ rest)).map fun r => (.string (String.ofList r.1), r.2) := by
  cases style <;> rfl

/-- The characters of an integer are its digits. -/
theorem toList_render_integer (n : Nat) : (render (.integer n)).toList = Nat.toDigits 10 n :=
  Nat.toList_repr

/-- The characters of a text are its quotation. -/
theorem toList_render_string (text : String) :
    (render (.string text)).toList = quoteAs (.choose text.toList) text.toList :=
  String.toList_ofList

/-- A value is read up to the end of its line. -/
theorem readScalar_render (h : value.Writable) (rest : List Char) :
    readScalar (value.render.toList ++ '\n' :: rest) = some (value.item, '\n' :: rest) := by
  cases value with
  | boolean value => cases value <;> rfl
  | string text =>
    have hread : readQuoted (quoteAs (.choose text.toList) text.toList ++ '\n' :: rest) =
        some (text.toList, '\n' :: rest) :=
      readQuoted_quoteAs text.toList (by simp) (by simp)
    rw [toList_render_string, readScalar_quoteAs, hread, Option.map_some, String.ofList_toList, item]
  | integer n =>
    rw [toList_render_integer, item, ← readNumeric_toDigits h rest]
    rcases toDigits_cases n with rfl | ⟨d, ds, hdigits, -, hd, -⟩
    · rfl
    · have ht : d ≠ 't' := ne_of_class hd (by decide)
      have hf : d ≠ 'f' := ne_of_class hd (by decide)
      have hquote : d ≠ '\x22' := ne_of_class hd (by decide)
      have hapostrophe : d ≠ '\x27' := ne_of_class hd (by decide)
      simp [hdigits, readScalar, ht, hf, hquote, hapostrophe]

/-- A value begins neither with a blank nor with what opens an array or a table in braces. -/
theorem exists_render_eq (value : Scalar) : ∃ first more, value.render.toList = first :: more ∧
    first ≠ '[' ∧ first ≠ '\x7b' ∧ isBlank first = false := by
  cases value with
  | boolean value => cases value <;> exact ⟨_, _, rfl, by decide, by decide, by decide⟩
  | string text =>
    rw [toList_render_string]
    cases QuoteStyle.choose text.toList <;> exact ⟨_, _, rfl, by decide, by decide, by decide⟩
  | integer n =>
    rw [toList_render_integer]
    rcases toDigits_cases n with rfl | ⟨d, ds, hdigits, -, hd, -⟩
    · exact ⟨_, _, rfl, by decide, by decide, by decide⟩
    · have hspace : d ≠ ' ' := ne_of_class hd (by decide)
      have htab : d ≠ '\t' := ne_of_class hd (by decide)
      exact ⟨d, ds, hdigits, ne_of_class hd (by decide),
        ne_of_class hd (by decide), by simp [isBlank, hspace, htab]⟩

/-- A value is read up to the end of its line wherever a value may stand, with the blanks before it. -/
theorem readValue_render (h : value.Writable) (room : Nat) (rest : List Char) :
    readValue room (skipBlanks (' ' :: (value.render.toList ++ '\n' :: rest))) =
      some (value.item, '\n' :: rest) := by
  have hread := readScalar_render h rest
  obtain ⟨first, more, hfirst, hbracket, hbrace, hblank⟩ := value.exists_render_eq
  rw [hfirst, List.cons_append] at hread ⊢
  have hskip : skipBlanks (' ' :: first :: (more ++ '\n' :: rest)) =
      first :: (more ++ '\n' :: rest) := by
    simp [skipBlanks, show isBlank ' ' = true by decide, hblank]
  rw [hskip, ← hread]
  cases room <;> simp [readValue, hbracket, hbrace]

end Scalar

/-- A key that may be written without quotes. -/
structure BareKey (key : String) : Prop where
  ne_empty : key ≠ ""
  bare : key.toList.all isBareKeyChar = true

/-- Whether a key may be written without quotes can be decided. -/
instance (key : String) : Decidable (BareKey key) :=
  decidable_of_iff (key ≠ "" ∧ key.toList.all isBareKeyChar = true)
    ⟨fun h => ⟨h.1, h.2⟩, fun h => ⟨h.ne_empty, h.bare⟩⟩

/-- The first character of a key is one of a key. -/
theorem BareKey.exists_toList_eq (h : BareKey key) :
    ∃ first more, key.toList = first :: more ∧ isBareKeyChar first = true := by
  cases hkey : key.toList with
  | nil => exact absurd (String.toList_eq_nil_iff.mp hkey) h.ne_empty
  | cons first more => exact ⟨first, more, rfl, List.all_eq_true.mp h.bare first (by simp [hkey])⟩

/-- A key is read up to the blank after it. -/
theorem readKeyPart_append (h : BareKey key) (rest : List Char) :
    readKeyPart (key.toList ++ ' ' :: rest) = some (key, ' ' :: rest) := by
  have hblank : isBareKeyChar ' ' = false := by decide
  have htake : (key.toList ++ ' ' :: rest).takeWhile isBareKeyChar = key.toList := by
    rw [List.takeWhile_append_of_pos (List.all_eq_true.mp h.bare)]
    simp [hblank]
  have hdrop : (key.toList ++ ' ' :: rest).dropWhile isBareKeyChar = ' ' :: rest := by
    rw [List.dropWhile_append_of_pos (List.all_eq_true.mp h.bare)]
    simp [hblank]
  obtain ⟨first, more, hfirst, hbare⟩ := h.exists_toList_eq
  have hofList : String.ofList (first :: more) = key := by rw [← hfirst, String.ofList_toList]
  rw [hfirst, List.cons_append] at htake hdrop ⊢
  have hquote : first ≠ '\x22' := ne_of_class hbare (by decide)
  have hapostrophe : first ≠ '\x27' := ne_of_class hbare (by decide)
  simp [readKeyPart, hquote, hapostrophe, htake, hdrop, hofList]

/-- A key is not taken for blanks. -/
theorem skipBlanks_of_isBareKeyChar {first : Char} (h : isBareKeyChar first = true)
    (more : List Char) : skipBlanks (first :: more) = first :: more := by
  have hspace : first ≠ ' ' := ne_of_class h (by decide)
  have htab : first ≠ '\t' := ne_of_class h (by decide)
  simp [skipBlanks, isBlank, hspace, htab]

/-- A key without dots is read up to its equals sign, with the blank before it. -/
theorem readKey_append (h : BareKey key) (rest : List Char) :
    readKey (key.toList ++ ' ' :: '=' :: rest) = some (([], key), '=' :: rest) := by
  have hpart := readKeyPart_append h ('=' :: rest)
  have hskip : skipBlanks (key.toList ++ ' ' :: '=' :: rest) = key.toList ++ ' ' :: '=' :: rest := by
    obtain ⟨first, more, hfirst, hbare⟩ := h.exists_toList_eq
    rw [hfirst]
    exact skipBlanks_of_isBareKeyChar hbare _
  have hafter : skipBlanks (' ' :: '=' :: rest) = '=' :: rest := rfl
  have hparts : readKeyParts nestingLimit (key.toList ++ ' ' :: '=' :: rest) =
      some ([key], '=' :: rest) := by
    rw [nestingLimit, readKeyParts]
    simp only [hskip, hpart, hafter, Option.bind_eq_bind, Option.bind_some]
    rfl
  unfold readKey
  simp only [hparts, Option.bind_eq_bind, Option.bind_some]
  rfl

/-- The assignment that a line makes. -/
def assignmentOf (entry : String × Scalar) : Assignment := ⟨[], entry.1, entry.2.item⟩

/-- An assignment that can be written. -/
structure WritableEntry (entry : String × Scalar) : Prop where
  bareKey : BareKey entry.1
  writable : entry.2.Writable

variable {entry : String × Scalar} {entries : List (String × Scalar)}

/-- The characters of a line. -/
theorem toList_renderLine (key : String) (value : Scalar) :
    (renderLine key value).toList =
      key.toList ++ ' ' :: '=' :: ' ' :: (value.render.toList ++ ['\n']) := by
  simp [renderLine]

/-- A line begins with a character of a key. -/
theorem WritableEntry.exists_toList_eq (h : WritableEntry entry) :
    ∃ first more, (renderLine entry.1 entry.2).toList = first :: more ∧ isBareKeyChar first = true := by
  obtain ⟨first, more, hfirst, hbare⟩ := h.bareKey.exists_toList_eq
  rw [toList_renderLine, hfirst]
  exact ⟨first, _, rfl, hbare⟩

/-- A line is read as its assignment. -/
theorem readStatement_renderLine (h : WritableEntry entry) (rest : List Char) :
    readStatement ((renderLine entry.1 entry.2).toList ++ rest) =
      some (.assignment (assignmentOf entry), '\n' :: rest) := by
  have hassignment : readAssignment (readValue nestingLimit)
      ((renderLine entry.1 entry.2).toList ++ rest) = some (assignmentOf entry, '\n' :: rest) := by
    have hvalue := Scalar.readValue_render h.writable nestingLimit rest
    unfold readAssignment
    simp only [toList_renderLine, List.append_assoc, List.cons_append, List.nil_append,
      readKey_append h.bareKey, char, if_true, hvalue, Option.bind_eq_bind, Option.bind_some]
    rfl
  obtain ⟨first, more, hfirst, hbare⟩ := h.exists_toList_eq
  have hbracket : first ≠ '[' := ne_of_class hbare (by decide)
  rw [hfirst, List.cons_append] at hassignment ⊢
  simp [readStatement, hbracket, hassignment]

/-- The characters of a document are those of its lines. -/
theorem toList_render_cons (entry : String × Scalar) (entries : List (String × Scalar)) :
    (render (entry :: entries)).toList =
      (renderLine entry.1 entry.2).toList ++ (render entries).toList := by
  simp [render, String.join_cons]

/-- One line is read, and then the lines after it. -/
theorem readStatements_renderLine (h : WritableEntry entry) (fuel : Nat) (rest : List Char) :
    readStatements (fuel + 1) ((renderLine entry.1 entry.2).toList ++ rest) =
      (readStatements fuel rest).map (.assignment (assignmentOf entry) :: ·) := by
  have hread := readStatement_renderLine h rest
  obtain ⟨first, more, hfirst, hbare⟩ := h.exists_toList_eq
  have hend : endLine? ('\n' :: rest) = some rest := rfl
  have hidle : isIdle (first :: (more ++ rest)) = false := by
    have hcomment : first ≠ '#' := ne_of_class hbare (by decide)
    have hline : first ≠ '\n' := ne_of_class hbare (by decide)
    have hreturn : first ≠ '\r' := ne_of_class hbare (by decide)
    simp [isIdle, startsNewline, afterNewline?, hcomment, hline, hreturn]
  rw [hfirst, List.cons_append] at hread ⊢
  rw [readStatements, skipBlanks_of_isBareKeyChar hbare]
  simp only [hidle, Bool.false_eq_true, if_false, hread, Option.bind_eq_bind, Option.bind_some, hend]
  cases readStatements fuel rest <;> rfl

/-- A document is read as the assignments of its lines. -/
theorem readStatements_render (h : ∀ entry ∈ entries, WritableEntry entry) {fuel : Nat}
    (hfuel : entries.length < fuel) :
    readStatements fuel (render entries).toList =
      some (entries.map fun entry => .assignment (assignmentOf entry)) := by
  induction entries generalizing fuel with
  | nil =>
    cases fuel with
    | zero => cases hfuel
    | succ fuel => rfl
  | cons entry entries ih =>
    cases fuel with
    | zero => cases hfuel
    | succ fuel =>
      have hlater := ih (fun e he => h e (List.mem_cons_of_mem entry he))
        (Nat.lt_of_succ_lt_succ hfuel)
      rw [toList_render_cons, readStatements_renderLine (h entry List.mem_cons_self), hlater]
      rfl

/-- Every line takes at least one character. -/
theorem length_le_length_render (h : ∀ entry ∈ entries, WritableEntry entry) :
    entries.length ≤ (render entries).toList.length := by
  induction entries with
  | nil => exact Nat.zero_le _
  | cons entry entries ih =>
    have hlater := ih fun e he => h e (List.mem_cons_of_mem entry he)
    obtain ⟨first, more, hfirst, -⟩ := (h entry List.mem_cons_self).exists_toList_eq
    rw [toList_render_cons, hfirst, List.length_append, List.length_cons, List.length_cons]
    omega

/-- A document does not begin with a mark of the byte order. -/
theorem skipMark_render (h : ∀ entry ∈ entries, WritableEntry entry) :
    skipMark (render entries).toList = (render entries).toList := by
  cases entries with
  | nil => rfl
  | cons entry entries =>
    obtain ⟨first, more, hfirst, hbare⟩ := (h entry List.mem_cons_self).exists_toList_eq
    have hmark : first ≠ Char.ofNat 0xfeff := ne_of_class hbare (by decide)
    have hnumber : first.toNat ≠ 0xfeff := by
      intro heq
      rw [← heq, Char.ofNat_toNat] at hmark
      exact hmark rfl
    rw [toList_render_cons, hfirst, List.cons_append, skipMark, if_neg hnumber]

/-- Without headers, all assignments are made at the top. -/
theorem sections_map (entries : List (String × Scalar)) :
    sections (entries.map fun entry => .assignment (assignmentOf entry)) =
      (entries.map assignmentOf, []) := by
  induction entries with
  | nil => rfl
  | cons entry entries ih => rw [List.map_cons, sections, ih, List.map_cons]

/-- A key that is not there stands for nothing. -/
theorem Entries.get?_eq_none_iff {items : Entries} :
    get? key items = none ↔ key ∉ items.map Prod.fst := by
  induction items with
  | nil => simp [get?]
  | cons e items ih =>
    obtain ⟨k, item⟩ := e
    by_cases hk : k = key
    · simp [get?, hk]
    · simp [get?, hk, Ne.symm hk, ih]

/-- Under different keys, each stands for what it is listed with. -/
theorem Entries.get?_of_mem {items : Entries} (hkeys : (items.map Prod.fst).Nodup) {item : Item}
    (h : (key, item) ∈ items) : get? key items = some item := by
  induction items with
  | nil => cases h
  | cons e items ih =>
    obtain ⟨hnew, hrest⟩ := List.nodup_cons.mp hkeys
    rcases List.mem_cons.mp h with rfl | hlater
    · simp [get?]
    · have hne : e.1 ≠ key := by
        rintro rfl
        exact hnew (List.mem_map.mpr ⟨(e.1, item), hlater, rfl⟩)
      rw [get?, if_neg hne, ih hrest hlater]

/-- After some of the assignments were struck out, the other keys stand for what they did. -/
theorem Entries.get?_of_sublist {kept items : Entries} (h : kept.Sublist items)
    (hkeys : (items.map Prod.fst).Nodup) (key : String) :
    get? key kept = if key ∈ kept.map Prod.fst then get? key items else none := by
  by_cases hkey : key ∈ kept.map Prod.fst
  · obtain ⟨⟨k, item⟩, hmem, rfl⟩ := List.mem_map.mp hkey
    rw [if_pos hkey, get?_of_mem hkeys (h.subset hmem), get?_of_mem (hkeys.sublist (h.map _)) hmem]
  · rw [if_neg hkey, get?_eq_none_iff.mpr hkey]

/-- Assignments to new keys are made one after the other. -/
theorem assignAll?_append (items : Entries)
    (h : (items.map Prod.fst ++ entries.map Prod.fst).Nodup) :
    assignAll? (entries.map assignmentOf) items =
      some (items ++ entries.map fun entry => (entry.1, entry.2.item)) := by
  induction entries generalizing items with
  | nil => simp [assignAll?]
  | cons entry entries ih =>
    have hnew : Entries.get? entry.1 items = none := by
      rw [Entries.get?_eq_none_iff]
      intro hmem
      exact (List.nodup_append.mp h).2.2 _ hmem _ List.mem_cons_self rfl
    have hassign : Entries.assign? [] entry.1 entry.2.item items =
        some (items ++ [(entry.1, entry.2.item)]) := by
      simp [Entries.assign?, Entries.alter, Entries.add?, hnew]
    have hlater := ih (items ++ [(entry.1, entry.2.item)]) (by simpa using h)
    rw [List.map_cons, assignAll?, assignmentOf, hassign, Option.bind_eq_bind, Option.bind_some,
      hlater]
    simp

/-- A document of values that can be written under different keys is read back. -/
theorem read?_render (h : ∀ entry ∈ entries, WritableEntry entry)
    (hkeys : (entries.map Prod.fst).Nodup) :
    read? (render entries) = some (entries.map fun entry => (entry.1, entry.2.item)) := by
  have hfuel : entries.length < (render entries).toList.length + 1 :=
    Nat.lt_succ_of_le (length_le_length_render h)
  have hassign := assignAll?_append [] (by simpa using hkeys)
  rw [List.nil_append] at hassign
  have hbuild : build? (entries.map fun entry => .assignment (assignmentOf entry)) =
      some (entries.map fun entry => (entry.1, entry.2.item)) := by
    unfold build?
    simp only [sections_map, hassign, addSections?, Option.bind_eq_bind, Option.bind_some]
  unfold read?
  simp only [skipMark_render h, readStatements_render h hfuel, Option.bind_eq_bind,
    Option.bind_some, hbuild]

end BranchSync.Toml
