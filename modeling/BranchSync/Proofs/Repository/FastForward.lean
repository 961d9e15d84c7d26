import BranchSync.Proofs.Checks
import BranchSync.Proofs.Repository.PackForm

/-!
# Imports are fast-forward only

A tip is located by its first occurrence, and an import is accepted only where that occurrence
ends the history. The position of a tip never moves while a history grows, so a start that was
good once is behind the end of the history as soon as anything was appended, also when the
appended commits repeat earlier ones or the start itself.
-/

namespace BranchSync.Repository

/-- Appending commits does not move the position of a tip that is there. -/
theorem position?_append {history : List CommitId} {tip : Tip} {n : Nat}
    (h : position? history tip = some n) (more : List CommitId) :
    position? (history ++ more) tip = some n := by
  cases tip with
  | empty => exact h
  | commit id =>
    obtain ⟨i, hi, rfl⟩ := Option.map_eq_some_iff.mp h
    obtain ⟨hlt, hat, hbefore⟩ := List.idxOf?_eq_some_iff.mp hi
    refine Option.map_eq_some_iff.mpr ⟨i, List.idxOf?_eq_some_iff.mpr ?_, rfl⟩
    have hlt' : i < (history ++ more).length := by
      rw [List.length_append]
      omega
    refine ⟨hlt', ?_, ?_⟩
    · rw [List.getElem_append_left hlt]
      exact hat
    · intro j hj
      rw [List.getElem_append_left (by omega)]
      exact hbefore j hj

/-- A tip whose position is the end of the history is the tip of the history. -/
theorem eq_ofHistory_of_position? {history : List CommitId} {tip : Tip}
    (h : position? history tip = some history.length) : tip = .ofHistory history := by
  cases tip with
  | empty =>
    have hlength : 0 = history.length := Option.some.inj h
    rw [List.eq_nil_of_length_eq_zero hlength.symm]
    rfl
  | commit id =>
    obtain ⟨i, hi, hend⟩ := Option.map_eq_some_iff.mp h
    obtain ⟨hlt, hat, -⟩ := List.idxOf?_eq_some_iff.mp hi
    have hlast : history.getLast? = some id := by
      rw [List.getLast?_eq_getElem?, show history.length - 1 = i by omega,
        List.getElem?_eq_getElem hlt, hat]
    rw [Tip.ofHistory, hlast]

/-- A history that grows from its own tip ends where the appended commits lead. -/
theorem tipAfter_ofHistory (history commits : List CommitId) :
    tipAfter (.ofHistory history) commits = .ofHistory (history ++ commits) := by
  unfold tipAfter Tip.ofHistory
  rw [List.getLast?_append]
  cases commits.getLast? <;> rfl

/-- A position is found exactly when there is one, and it is that one. -/
theorem position_eq_ok_iff {history : List CommitId} {branch : String} {tip : Tip} {n : Nat} :
    position history branch tip = .ok n ↔ position? history tip = some n := by
  cases tip with
  | empty => simp [position, position?]
  | commit id =>
    rw [position]
    cases position? history (.commit id) <;> simp

/-- A history is extended exactly from its end to the announced tip. -/
theorem extend_eq_ok_iff {history commits result : List CommitId} {branch : String}
    {start last : Tip} :
    extend history branch commits start last = .ok result ↔
      position? history start = some history.length ∧ last = .ofHistory (history ++ commits) ∧
        result = history ++ commits := by
  unfold extend
  cases hposition : position history branch start with
  | error e =>
    have hnone : ∀ n, position? history start ≠ some n := by
      intro n hn
      rw [position_eq_ok_iff.mpr hn] at hposition
      cases hposition
    constructor
    · intro h
      cases h
    · intro hgood
      obtain ⟨hstart, -⟩ := hgood
      exact absurd hstart (hnone _)
  | ok kept =>
    have hkept := position_eq_ok_iff.mp hposition
    change (if kept ≠ history.length then _ else _) = _ ↔ _
    by_cases hend : kept = history.length
    · rw [if_neg (not_not_intro hend)]
      rw [hend] at hkept
      have hstart := eq_ofHistory_of_position? hkept
      rw [hstart] at hkept
      rw [hstart, tipAfter_ofHistory]
      by_cases hlast : Tip.ofHistory (history ++ commits) = last
      · simp [hlast, hkept, eq_comm, pure, Except.pure]
      · simp [hlast, hkept, Ne.symm hlast]
    · rw [if_pos hend, hkept]
      simp [hend]

/-- The history of a branch after an import. -/
def importHistory (history : List CommitId) (branch : String) (pack : List UInt8)
    (start last : TipRef) : Except RepositoryError (List CommitId) := do
  let commits ← readPack pack
  let startTip ← resolve start
  let lastTip ← resolve last
  extend history branch commits startTip lastTip

/-- An import is decided by the history of its branch and replaces that history alone. -/
theorem importPack_eq (r : Repository) (branch : String) (pack : List UInt8)
    (start last : TipRef) :
    r.importPack branch pack start last =
      (importHistory (r.history branch) branch pack start last).map (r.setHistory branch) := by
  unfold importPack importHistory
  cases readPack pack with
  | error e => rfl
  | ok commits =>
    cases resolve start with
    | error e => rfl
    | ok startTip =>
      cases resolve last with
      | error e => rfl
      | ok lastTip =>
        change (extend (r.history branch) branch commits startTip lastTip >>= _) =
          (extend (r.history branch) branch commits startTip lastTip).map _
        cases extend (r.history branch) branch commits startTip lastTip <;> rfl

/-- The tip of a replaced history. -/
theorem tip_setHistory (r : Repository) (branch : String) (history : List CommitId) :
    (r.setHistory branch history).tip branch = .ofHistory history := by
  rw [tip, history_setHistory, if_pos rfl]

/-- A reference is resolved exactly when it names a tip, and to that tip. -/
theorem resolve_eq_ok_iff {reference : TipRef} {tip : Tip} :
    resolve reference = .ok tip ↔ reference = .tip tip := by
  cases reference <;> simp [resolve]

/-- A pack is imported exactly when it is one, the start names the end of the history, and the
announced tip is where the history leads then; its commits are appended. -/
theorem importPack_eq_ok_iff {r r' : Repository} {branch : String} {pack : List UInt8}
    {start last : TipRef} :
    r.importPack branch pack start last = .ok r' ↔
      ∃ commits tip, Pack.decode pack = .ok commits ∧ start = .tip tip ∧
        position? (r.history branch) tip = some (r.history branch).length ∧
        last = .tip (.ofHistory (r.history branch ++ commits)) ∧
        r' = r.setHistory branch (r.history branch ++ commits) := by
  simp only [importPack, bind_eq_ok_iff, pure_eq_ok_iff, readPack_eq_ok_iff, resolve_eq_ok_iff,
    extend_eq_ok_iff]
  constructor
  · intro h
    obtain ⟨commits, hdecode, tip, hstart, lastTip, hlast, history, hextend, hresult⟩ := h
    obtain ⟨hend, hlastTip, hhistory⟩ := hextend
    rw [hlastTip] at hlast
    rw [hhistory] at hresult
    exact ⟨commits, tip, hdecode, hstart, hend, hlast, hresult.symm⟩
  · intro h
    obtain ⟨commits, tip, hdecode, hstart, hend, hlast, hresult⟩ := h
    exact ⟨commits, hdecode, tip, hstart, _, hlast, _, ⟨hend, rfl, rfl⟩, hresult.symm⟩

/-- The first occurrence of a tip lies before the end of a history. -/
def Spent (history : List CommitId) (tip : Tip) : Prop :=
  ∃ n < history.length, position? history tip = some n

/-- A spent tip stays spent while the history grows. -/
theorem Spent.append {history : List CommitId} {tip : Tip} (h : Spent history tip)
    (more : List CommitId) : Spent (history ++ more) tip := by
  obtain ⟨n, hlt, hposition⟩ := h
  refine ⟨n, ?_, position?_append hposition more⟩
  rw [List.length_append]
  omega

/-- A spent tip is not where a history ends. -/
theorem Spent.position?_ne {history : List CommitId} {tip : Tip} (h : Spent history tip) :
    position? history tip ≠ some history.length := by
  obtain ⟨n, hlt, hposition⟩ := h
  intro hend
  rw [hposition] at hend
  have hsame : n = history.length := Option.some.inj hend
  omega

/-- Nothing has been spent on a branch without a history. -/
theorem Spent.ne_nil {history : List CommitId} {tip : Tip} (h : Spent history tip) :
    history ≠ [] := by
  obtain ⟨n, hlt, -⟩ := h
  intro hnil
  rw [hnil] at hlt
  exact Nat.not_lt_zero n hlt

/-- An import that starts from a spent tip is refused, whatever it carries. -/
theorem Spent.importPack_error {r : Repository} {branch : String} {tip : Tip}
    (h : Spent (r.history branch) tip) (pack : List UInt8) (last : TipRef) :
    ∃ e, r.importPack branch pack (.tip tip) last = .error e := by
  cases himport : r.importPack branch pack (.tip tip) last with
  | error e => exact ⟨e, rfl⟩
  | ok r' =>
    obtain ⟨commits, start, -, hstart, hend, -⟩ := importPack_eq_ok_iff.mp himport
    cases hstart
    exact absurd hend h.position?_ne

end BranchSync.Repository
