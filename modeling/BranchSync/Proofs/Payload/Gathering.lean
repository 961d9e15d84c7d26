import BranchSync.Payload.Collector

/-!
# Gathered text

A collector that is fed pieces of text ends up with the outcome of their concatenation: the
count of octets is exact, and the stored text is the whole text unless the limit was passed,
in which case it no longer matters. How the text was cut into pieces leaves no trace.

The count is exact only while the octets of the text fit it, so this is a condition on the text. It
is empty for natural numbers, and without a limit, where the count does not matter.
-/

namespace BranchSync.Collector

variable {κ : Type} [OctetCount κ] {limit : Option UInt64}

/-- The octets of a text can be counted, or need not be, as there is no limit. -/
def Countable (κ : Type) [OctetCount κ] (limit : Option UInt64) (text : String) : Prop :=
  limit = none ∨ OctetCount.Fits κ text.utf8ByteSize

/-- Natural numbers count every text. -/
theorem countable_nat (limit : Option UInt64) (text : String) : Countable Nat limit text :=
  .inr trivial

/-- What comes first in a text can be counted if the text can. -/
theorem Countable.of_append {text more : String} (h : Countable κ limit (text ++ more)) :
    Countable κ limit text :=
  h.imp_right (OctetCount.fits_of_le (by rw [String.utf8ByteSize_append]; omega))

/-- A collector is gathering, and `gathered` is all the text that arrived so far. What it stores is
within the limit, and is all of the text unless the text is not. -/
def Gathers (c : Collector κ) (gathered : String) : Prop :=
  ∃ seen stored, c.phase = .collecting seen stored ∧
    (c.limit = none ∨ OctetCount.toNat seen = gathered.utf8ByteSize) ∧
    (admits c.limit gathered.utf8ByteSize = true → stored = gathered) ∧
    admits c.limit stored.utf8ByteSize = true

/-- A size within the limit stays within it when it shrinks. -/
theorem admits_mono {small large : Nat} (hle : small ≤ large) (h : admits limit large = true) :
    admits limit small = true := by
  cases limit with
  | none => rfl
  | some max =>
    simp only [admits, decide_eq_true_eq] at h ⊢
    omega

/-- Without a limit, no size matters. -/
theorem admits_congr {size size' : Nat} (h : limit = none ∨ size = size') :
    admits limit size = admits limit size' := by
  rcases h with rfl | rfl
  · rfl
  · rfl

/-- An outcome depends on the size only if there is a limit, and on the stored text only while the
limit admits the size. -/
theorem outcome_congr {size size' : Nat} {stored text : String}
    (hsize : limit = none ∨ size = size') (h : admits limit size' = true → stored = text) :
    outcome limit size stored = outcome limit size' text := by
  cases limit with
  | none => rw [outcome, outcome, h rfl]
  | some max =>
    rw [hsize.resolve_left (Option.some_ne_none max)]
    by_cases hmax : size' > max.toNat
    · simp [outcome, hmax]
    · rw [h (by simp only [admits, decide_eq_true_eq]; omega)]

/-- A collector that has just begun gathers the empty text. -/
theorem gathers_begin (limit : Option UInt64) : (new limit : Collector κ).begin.2.Gathers "" := by
  have hempty : admits limit "".utf8ByteSize = true := by
    cases limit <;> simp [admits]
  exact ⟨OctetCount.zero, "", rfl, .inr OctetCount.toNat_zero, fun _ => rfl, hempty⟩

/-- A piece of text does not change the limit. -/
@[simp] theorem pushText_limit (c : Collector κ) (text : String) :
    (c.pushText text).limit = c.limit := by
  unfold pushText
  split <;> rfl

/-- A piece of text is counted, and stored if the limit admits the count. -/
theorem pushText_of_collecting {c : Collector κ} {seen : κ} {stored : String}
    (h : c.phase = .collecting seen stored) (text : String) :
    c.pushText text = ⟨c.limit, .collecting (OctetCount.add seen text.utf8ByteSize)
      (if admits c.limit (OctetCount.toNat (OctetCount.add seen text.utf8ByteSize)) = true
        then stored ++ text else stored)⟩ := by
  simp only [Collector.pushText, h]

/-- A gathering collector goes on to gather the text with the next piece appended. -/
theorem Gathers.pushText {c : Collector κ} {gathered text : String} (h : c.Gathers gathered)
    (hcount : Countable κ c.limit (gathered ++ text)) :
    (c.pushText text).Gathers (gathered ++ text) := by
  obtain ⟨seen, stored, hphase, hseen, hstored, hwithin⟩ := h
  have hsize : (gathered ++ text).utf8ByteSize = gathered.utf8ByteSize + text.utf8ByteSize :=
    String.utf8ByteSize_append
  have hnext : c.limit = none ∨ OctetCount.toNat (OctetCount.add seen text.utf8ByteSize) =
      (gathered ++ text).utf8ByteSize := by
    rcases hcount with hnone | hfits
    · exact .inl hnone
    · refine hseen.imp_right fun hexact => ?_
      rw [hsize, ← hexact] at hfits ⊢
      exact OctetCount.toNat_add hfits
  rw [pushText_of_collecting hphase, admits_congr hnext]
  by_cases hroom : admits c.limit (gathered ++ text).utf8ByteSize = true
  · have hwhole : stored = gathered := hstored (admits_mono (by omega) hroom)
    rw [if_pos hroom, hwhole]
    exact ⟨_, _, rfl, hnext, fun _ => rfl, hroom⟩
  · rw [if_neg hroom]
    exact ⟨_, _, rfl, hnext, fun h => absurd h hroom, hwithin⟩

/-- Pieces are gathered in the order of their arrival. -/
theorem Gathers.foldl_pushText {c : Collector κ} {gathered : String} (h : c.Gathers gathered)
    {texts : List String} (hcount : Countable κ c.limit (gathered ++ String.join texts)) :
    (texts.foldl Collector.pushText c).Gathers (gathered ++ String.join texts) := by
  induction texts generalizing c gathered with
  | nil =>
    rw [String.join_nil, String.append_empty]
    exact h
  | cons text rest ih =>
    rw [String.join_cons, ← String.append_assoc] at hcount ⊢
    refine ih (h.pushText hcount.of_append) ?_
    rw [pushText_limit]
    exact hcount

/-- Pieces of text do not change the limit. -/
theorem foldl_pushText_limit (c : Collector κ) (texts : List String) :
    (texts.foldl Collector.pushText c).limit = c.limit := by
  induction texts generalizing c with
  | nil => rfl
  | cons text rest ih => rw [List.foldl_cons, ih, pushText_limit]

/-- Closing yields the outcome of the whole text, measured as a whole. -/
theorem Gathers.finish {c : Collector κ} {gathered : String} (h : c.Gathers gathered) :
    c.finish = (some (outcome c.limit gathered.utf8ByteSize gathered), ⟨c.limit, .done⟩) := by
  obtain ⟨seen, stored, hphase, hseen, hstored, -⟩ := h
  simp only [Collector.finish, hphase, outcome_congr hseen hstored]

/-- A collector that is fed pieces and closed yields the outcome of their concatenation. -/
theorem finish_foldl_pushText {texts : List String}
    (hcount : Countable κ limit (String.join texts)) :
    (texts.foldl Collector.pushText (new limit : Collector κ).begin.2).finish =
      (some (outcome limit (String.join texts).utf8ByteSize (String.join texts)),
        ⟨limit, .done⟩) := by
  have hbegun : (new limit : Collector κ).begin.2.limit = limit := rfl
  have h := (gathers_begin (κ := κ) limit).foldl_pushText (by rwa [String.empty_append])
  rw [String.empty_append] at h
  rw [h.finish, foldl_pushText_limit, hbegun]

/-- For a text that fits a machine word, it makes no difference whether octets are counted in one or
in natural numbers. -/
theorem finish_foldl_pushText_word {texts : List String}
    (hfits : (String.join texts).utf8ByteSize < UInt64.size) :
    (texts.foldl Collector.pushText (new limit : Collector).begin.2).finish.1 =
      (texts.foldl Collector.pushText (new limit : Collector Nat).begin.2).finish.1 := by
  rw [finish_foldl_pushText (.inr hfits), finish_foldl_pushText (countable_nat limit _)]

/-- Text is dropped by a collector that is not gathering. -/
theorem pushText_of_not_collecting {c : Collector κ} (h : c.isCollecting = false) (text : String) :
    c.pushText text = c := by
  cases hphase : c.phase with
  | idle => simp [Collector.pushText, hphase]
  | collecting seen stored => simp [isCollecting, hphase] at h
  | done => simp [Collector.pushText, hphase]

/-- All texts are dropped by a collector that is not gathering. -/
theorem foldl_pushText_of_not_collecting {c : Collector κ} (h : c.isCollecting = false)
    (texts : List String) : texts.foldl Collector.pushText c = c := by
  induction texts with
  | nil => rfl
  | cons text rest ih => rw [List.foldl_cons, pushText_of_not_collecting h, ih]

end BranchSync.Collector
