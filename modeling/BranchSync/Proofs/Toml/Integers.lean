import BranchSync.Proofs.Text.Numbers
import BranchSync.Toml.Document

/-!
# Reading back integers

An integer is written in decimal digits up to the end of its line. A value that begins with a digit
may be many things: a date, a time and a floating-point number are tried before an integer. Each of
them has a character among or after its digits that is neither a digit nor a line end, so none of them
is read.
-/

namespace BranchSync.Toml

open Text.Scan

variable {input rest : List Char}

/-- There are only digits up to the end of the line. -/
inductive DigitsToEnd : List Char → Prop where
  | lineEnd (rest : List Char) : DigitsToEnd ('\n' :: rest)
  | digit {c : Char} {input : List Char} (h : isDigit 10 c = true) (later : DigitsToEnd input) :
      DigitsToEnd (c :: input)

/-- Digits and a line end after them. -/
theorem digitsToEnd_append {ds : List Char} (h : ∀ c ∈ ds, isDigit 10 c = true)
    (rest : List Char) : DigitsToEnd (ds ++ '\n' :: rest) := by
  induction ds with
  | nil => exact .lineEnd rest
  | cons c ds ih =>
    exact .digit (h c List.mem_cons_self) (ih fun x hx => h x (List.mem_cons_of_mem c hx))

namespace DigitsToEnd

/-- Neither a mark nor a letter comes next. -/
theorem char_eq_none (h : DigitsToEnd input) {c : Char} (hdigit : isDigit 10 c = false)
    (hline : c ≠ '\n') : char c input = none := by
  cases h with
  | lineEnd rest => rw [char, if_neg hline.symm]
  | digit hc later => rw [char, if_neg (ne_of_class hc hdigit)]

/-- After two digits, there are only digits up to the end of the line. -/
theorem of_twoDigits (h : DigitsToEnd input) {n : Nat} (hread : twoDigits input = some (n, rest)) :
    DigitsToEnd rest := by
  have hline : isDigit 10 '\n' = false := by decide
  cases h with
  | lineEnd more => cases more <;> simp [twoDigits, hline] at hread
  | digit hfirst later =>
    cases later with
    | lineEnd more => simp [twoDigits, hline] at hread
    | digit hsecond later =>
      simp only [twoDigits, hfirst, hsecond, and_self, if_true, Option.some.injEq,
        Prod.mk.injEq] at hread
      rw [← hread.2]
      exact later

/-- After four digits, there are only digits up to the end of the line. -/
theorem of_fourDigits (h : DigitsToEnd input) {n : Nat} (hread : fourDigits input = some (n, rest)) :
    DigitsToEnd rest := by
  simp only [fourDigits, Option.bind_eq_bind, Option.bind_eq_some_iff, Option.pure_def,
    Option.some.injEq, Prod.exists, Prod.mk.injEq] at hread
  obtain ⟨high, middle, hhigh, low, last, hlow, -, rfl⟩ := hread
  exact (h.of_twoDigits hhigh).of_twoDigits hlow

/-- No date is read: a dash would have to follow its year. -/
theorem readDate_eq_none (h : DigitsToEnd input) : readDate input = none := by
  unfold readDate
  cases hyear : fourDigits input with
  | none => rfl
  | some found =>
    have hdash := (h.of_fourDigits hyear).char_eq_none (show isDigit 10 '-' = false by decide)
      (by decide)
    simp only [Option.bind_eq_bind, Option.bind_some, hdash, Option.bind_none]

/-- No time is read: a colon would have to follow its hour. -/
theorem readTime_eq_none (h : DigitsToEnd input) : readTime input = none := by
  unfold readTime
  cases hhour : twoDigits input with
  | none => rfl
  | some found =>
    have hcolon := (h.of_twoDigits hhour).char_eq_none (show isDigit 10 ':' = false by decide)
      (by decide)
    simp only [Option.bind_eq_bind, Option.bind_some, hcolon, Option.bind_none]

/-- Neither a date nor a time is read. -/
theorem readDateTime_eq_none (h : DigitsToEnd input) : readDateTime input = none := by
  rw [readDateTime, h.readDate_eq_none, h.readTime_eq_none]

end DigitsToEnd

/-- Digits are read up to the end of the line. -/
theorem moreDigits_append {ds : List Char} (h : ∀ c ∈ ds, isDigit 10 c = true) (rest : List Char) :
    moreDigits 10 (ds ++ '\n' :: rest) = some (ds, '\n' :: rest) := by
  have hline : isDigit 10 '\n' = false := by decide
  induction ds with
  | nil => simp [moreDigits, hline]
  | cons c ds ih =>
    have hc := h c List.mem_cons_self
    have hmark : c ≠ '_' := ne_of_class hc (by decide)
    have hlater := ih fun x hx => h x (List.mem_cons_of_mem c hx)
    simp [moreDigits, hmark, hc, hlater, pushDigit]

/-- The digits of a number are decimal digits. -/
theorem isDigit_toDigits (n : Nat) : ∀ c ∈ Nat.toDigits 10 n, isDigit 10 c = true :=
  isDigit_of_mem_toDigits (by decide) (by decide) n

/-- A number is zero, or its first digit is not. -/
theorem toDigits_cases (n : Nat) : n = 0 ∨ ∃ d ds, Nat.toDigits 10 n = d :: ds ∧ d ≠ '0' ∧
    isDigit 10 d = true ∧ ∀ c ∈ ds, isDigit 10 c = true := by
  refine (Nat.eq_zero_or_pos n).imp_right fun hn => ?_
  have hlead := head?_toDigits_ne_zero (show 1 < 10 by decide) (by decide) hn
  have hall := isDigit_toDigits n
  cases hdigits : Nat.toDigits 10 n with
  | nil => exact absurd hdigits Nat.toDigits_ne_nil
  | cons d ds =>
    rw [hdigits] at hlead hall
    exact ⟨d, ds, rfl, by simpa using hlead, hall d List.mem_cons_self,
      fun c hc => hall c (List.mem_cons_of_mem d hc)⟩

/-- A number is read in decimal digits up to the end of the line. -/
theorem decimalDigits_toDigits (n : Nat) (rest : List Char) :
    decimalDigits (Nat.toDigits 10 n ++ '\n' :: rest) = some (Nat.toDigits 10 n, '\n' :: rest) := by
  rcases toDigits_cases n with rfl | ⟨d, ds, hdigits, hzero, hd, hds⟩
  · rfl
  · simp [hdigits, decimalDigits, hzero, digits, hd, moreDigits_append hds, pushDigit]

/-- A number is written without a sign. -/
theorem sign_toDigits (n : Nat) (rest : List Char) :
    sign (Nat.toDigits 10 n ++ rest) = (false, Nat.toDigits 10 n ++ rest) := by
  rcases toDigits_cases n with rfl | ⟨d, ds, hdigits, -, hd, -⟩
  · rfl
  · have hminus : d ≠ '-' := ne_of_class hd (by decide)
    have hplus : d ≠ '+' := ne_of_class hd (by decide)
    simp [hdigits, sign, hminus, hplus]

/-- No floating-point number is read: nothing but the end of the line follows the digits. -/
theorem readFloat_toDigits (n : Nat) (rest : List Char) :
    readFloat (Nat.toDigits 10 n ++ '\n' :: rest) = none := by
  have htail : readTail ('\n' :: rest) = none := by simp [readTail, readExponent]
  have hfinite : readFinite false (Nat.toDigits 10 n ++ '\n' :: rest) = none := by
    unfold readFinite
    simp only [decimalDigits_toDigits, Option.bind_eq_bind, Option.bind_some, htail,
      Option.bind_none]
  have hspecial : readSpecial false (Nat.toDigits 10 n ++ '\n' :: rest) = none := by
    rcases toDigits_cases n with rfl | ⟨d, ds, hdigits, -, hd, -⟩
    · rfl
    · have hi : d ≠ 'i' := ne_of_class hd (by decide)
      have hn : d ≠ 'n' := ne_of_class hd (by decide)
      simp [hdigits, readSpecial, hi, hn]
  unfold readFloat
  simp only [sign_toDigits, hfinite, hspecial, Option.none_or]

/-- An integer is read up to the end of the line, if it is not too large. -/
theorem readInteger_toDigits {n : Nat} (hn : n < integerBound) (rest : List Char) :
    readInteger (Nat.toDigits 10 n ++ '\n' :: rest) = some (Int.ofNat n, '\n' :: rest) := by
  have hdecimal : readDecimal (Nat.toDigits 10 n ++ '\n' :: rest) =
      some (Int.ofNat n, '\n' :: rest) := by
    unfold readDecimal
    simp only [sign_toDigits, decimalDigits_toDigits, Option.bind_eq_bind, Option.bind_some,
      numberOf_toDigits (show 1 < 10 by decide) (by decide), Bool.false_eq_true, if_false,
      if_pos hn]
  rw [← hdecimal]
  rcases toDigits_cases n with rfl | ⟨d, ds, hdigits, hzero, -, -⟩
  · rfl
  · simp [hdigits, readInteger, hzero]

/-- A number that is written as a value is read as an integer. -/
theorem readNumeric_toDigits {n : Nat} (hn : n < integerBound) (rest : List Char) :
    readNumeric (Nat.toDigits 10 n ++ '\n' :: rest) = some (.integer n, '\n' :: rest) := by
  have hdate := (digitsToEnd_append (isDigit_toDigits n) rest).readDateTime_eq_none
  unfold readNumeric
  rw [hdate, readFloat_toDigits, readInteger_toDigits hn]
  rfl

end BranchSync.Toml
