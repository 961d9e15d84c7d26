import BranchSync.Text.Scan

/-!
# Reading back numbers

A number is written without leading zeros, and read as the longest run of digits. So a number that is
written is read back from any text that goes on with something other than a digit, if the form admits
its value and as many digits as this value can have.
-/

namespace BranchSync.Text.Scan

variable {base : Nat} {form : NumberForm} {rest : List Char}

/-- A text does not go on with a digit of a base. -/
def NoDigit (base : Nat) (rest : List Char) : Prop :=
  ∀ c ∈ rest.head?, isDigit base c = false

/-- Nothing more is no digit. -/
theorem noDigit_nil (base : Nat) : NoDigit base [] := by
  simp [NoDigit]

/-- A text goes on with a digit exactly if its first character is one. -/
theorem noDigit_cons_iff {c : Char} : NoDigit base (c :: rest) ↔ isDigit base c = false := by
  simp [NoDigit]

/-- A digit of a base is one of every larger base. -/
theorem noDigit_of_le {larger : Nat} (hle : base ≤ larger) (h : NoDigit larger rest) :
    NoDigit base rest := by
  intro c hc
  have hno := h c hc
  unfold isDigit digitValue? at hno ⊢
  rw [Option.isSome_eq_false_iff, Option.isNone_iff_eq_none, Option.filter_eq_none_iff] at hno ⊢
  intro n hn
  have hlarge := hno n hn
  simp only [decide_eq_true_eq] at hlarge ⊢
  omega

/-- A form in which every number below its bound can be written. -/
structure NumberForm.Roomy (form : NumberForm) : Prop where
  one_lt_base : 1 < form.base
  base_le : form.base ≤ 16
  bound_le : ∀ max, form.maxDigits = some max → 0 < max ∧ form.bound ≤ Nat.pow form.base max

/-- A digit has the value that it was written for. -/
theorem digitValue?_digitChar (hbase : base ≤ 16) {d : Nat} (hd : d < base) :
    digitValue? base (Nat.digitChar d) = some d := by
  have hvalue : ∀ d < 16, digitValue? 16 (Nat.digitChar d) = some d := by decide
  have hraw := hvalue d (by omega)
  unfold digitValue? at hraw ⊢
  rw [Option.filter_eq_some_iff] at hraw ⊢
  exact ⟨hraw.1, decide_eq_true hd⟩

/-- What is written consists of digits. -/
theorem isDigit_of_mem_toDigits (hone : 1 < base) (hbase : base ≤ 16) (n : Nat) :
    ∀ c ∈ Nat.toDigits base n, isDigit base c = true := by
  have hdigit (d : Nat) (hd : d < base) : isDigit base (Nat.digitChar d) = true := by
    rw [isDigit, digitValue?_digitChar hbase hd]
    rfl
  induction n using Nat.strongRecOn with
  | ind n ih =>
    by_cases hlt : n < base
    · rw [Nat.toDigits_of_lt_base hlt]
      simpa using hdigit n hlt
    · rw [Nat.toDigits_of_base_le hone (by omega)]
      intro c hc
      rcases List.mem_append.mp hc with hc | hc
      · exact ih (n / base) (Nat.div_lt_self (by omega) hone) c hc
      · rw [List.mem_singleton.mp hc]
        exact hdigit _ (Nat.mod_lt n (by omega))

/-- What is written stands for the number. -/
theorem numberOf_toDigits (hone : 1 < base) (hbase : base ≤ 16) (n : Nat) :
    numberOf base (Nat.toDigits base n) = n := by
  induction n using Nat.strongRecOn with
  | ind n ih =>
    by_cases hlt : n < base
    · rw [Nat.toDigits_of_lt_base hlt]
      simp [numberOf, digitValue?_digitChar hbase hlt]
    · have hmod := Nat.mod_lt n (show 0 < base by omega)
      have hfront := ih (n / base) (Nat.div_lt_self (by omega) hone)
      unfold numberOf at hfront
      rw [Nat.toDigits_of_base_le hone (by omega), numberOf, List.foldl_append, hfront]
      simp only [List.foldl_cons, List.foldl_nil, digitValue?_digitChar hbase hmod,
        Option.getD_some]
      rw [Nat.mul_comm]
      exact Nat.div_add_mod n base

/-- A number that is not a single digit is not written with a leading zero. -/
theorem head?_toDigits_ne_zero (hone : 1 < base) (hbase : base ≤ 16) {n : Nat} (hn : 0 < n) :
    (Nat.toDigits base n).head? ≠ some '0' := by
  induction n using Nat.strongRecOn with
  | ind n ih =>
    by_cases hlt : n < base
    · have hchar : ∀ d < 16, 0 < d → Nat.digitChar d ≠ '0' := by decide
      rw [Nat.toDigits_of_lt_base hlt]
      simpa using hchar n (by omega) hn
    · have hfront := ih (n / base) (Nat.div_lt_self (by omega) hone)
        (Nat.div_pos (by omega) (by omega))
      rw [Nat.toDigits_of_base_le hone (by omega)]
      cases hdigits : Nat.toDigits base (n / base) with
      | nil => exact absurd hdigits Nat.toDigits_ne_nil
      | cons c digits =>
        rw [hdigits] at hfront
        exact hfront

/-- A form accepts what is written for a number below its bound. -/
theorem NumberForm.Roomy.accepts_toDigits (h : form.Roomy) {n : Nat} (hn : n < form.bound) :
    form.accepts (Nat.toDigits form.base n) = true := by
  unfold NumberForm.accepts
  simp only [Bool.and_eq_true]
  refine ⟨⟨⟨?_, ?_⟩, ?_⟩, ?_⟩
  · simp
  · cases hmax : form.maxDigits with
    | none => rfl
    | some max =>
      obtain ⟨hpos, hbound⟩ := h.bound_le max hmax
      exact decide_eq_true
        ((Nat.length_toDigits_le_iff h.one_lt_base hpos).mpr (Nat.lt_of_lt_of_le hn hbound))
  · by_cases hzero : n = 0
    · have hbase : 0 < form.base := Nat.lt_of_succ_lt h.one_lt_base
      rw [hzero, Nat.toDigits_of_lt_base hbase]
      simp
    · have hlead := head?_toDigits_ne_zero h.one_lt_base h.base_le (Nat.pos_of_ne_zero hzero)
      rw [bne_iff_ne.mpr hlead, Bool.or_true]
  · rw [numberOf_toDigits h.one_lt_base h.base_le]
    exact decide_eq_true hn

/-- A number that is written is read back. -/
theorem NumberForm.Roomy.number_toDigits (h : form.Roomy) {n : Nat} (hn : n < form.bound)
    (hrest : NoDigit form.base rest) :
    number form (Nat.toDigits form.base n ++ rest) = some (n, rest) := by
  have hdigits := isDigit_of_mem_toDigits h.one_lt_base h.base_le n
  have hstop : rest.takeWhile (isDigit form.base) = [] ∧
      rest.dropWhile (isDigit form.base) = rest := by
    cases rest with
    | nil => exact ⟨rfl, rfl⟩
    | cons c rest => simp [noDigit_cons_iff.mp hrest]
  unfold number
  dsimp only
  rw [List.takeWhile_append_of_pos hdigits, List.dropWhile_append_of_pos hdigits, hstop.1, hstop.2,
    List.append_nil, if_pos (h.accepts_toDigits hn), numberOf_toDigits h.one_lt_base h.base_le]

/-- After a number, the text goes on behind its digits. -/
theorem eq_dropWhile_of_number {input : List Char} {n : Nat}
    (h : number form input = some (n, rest)) : rest = input.dropWhile (isDigit form.base) := by
  unfold number at h
  dsimp only at h
  split at h
  · exact (Prod.mk.inj (Option.some.inj h)).2.symm
  · cases h

/-- After characters other than a given one, a scan does not stop there either. -/
theorem head?_dropWhile_ne {p : Char → Bool} {c : Char} {front : List Char} (hfront : c ∉ front)
    (hstop : ∀ x ∈ rest.head?, p x = false) (hrest : rest.head? ≠ some c) :
    ((front ++ rest).dropWhile p).head? ≠ some c := by
  induction front with
  | nil =>
    cases rest with
    | nil => simp
    | cons x rest =>
      rw [List.nil_append, List.dropWhile_cons_of_neg (by simp [hstop x rfl])]
      exact hrest
  | cons x front ih =>
    obtain ⟨hx, hfront⟩ := not_or.mp (mt List.mem_cons.mpr hfront)
    by_cases hp : p x = true
    · rw [List.cons_append, List.dropWhile_cons_of_pos hp]
      exact ih hfront
    · rw [List.cons_append, List.dropWhile_cons_of_neg hp]
      simpa using Ne.symm hx

/-- No number is read from a text that does not begin with a digit. -/
theorem number_eq_none (h : NoDigit form.base rest) : number form rest = none := by
  have hnone : rest.takeWhile (isDigit form.base) = [] := by
    cases rest with
    | nil => rfl
    | cons c rest => simp [noDigit_cons_iff.mp h]
  unfold number
  dsimp only
  rw [hnone, if_neg (by simp [NumberForm.accepts])]

end BranchSync.Text.Scan
