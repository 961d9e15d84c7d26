import BranchSync.Proofs.Repository.Repetition

/-!
# Histories up to a tip

A tip is located by its first occurrence. `UpTo` says so without counting: nothing leads up to the
empty tip, and what leads up to a commit ends with it and does not contain it before. The position
of a tip is the length of the part of a history that leads up to it, and an export is what stands
between two such parts, cut to its most recent commits if a depth is set.
-/

namespace BranchSync

/-- What a depth keeps of commits given oldest first: all of them, or the most recent ones up to its
number. -/
def Depth.Keeps : Depth → List CommitId → List CommitId → Prop
  | .unbounded, commits, kept => kept = commits
  | .limited count, commits, kept =>
    kept <:+ commits ∧ kept.length = min count.toNat commits.length

/-- Trimming to a depth keeps what the depth says. -/
theorem Depth.keeps_trim (depth : Depth) (commits : List CommitId) :
    depth.Keeps commits (depth.trim commits) := by
  cases depth with
  | unbounded => rfl
  | limited count =>
    refine ⟨List.drop_suffix _ commits, ?_⟩
    rw [trim, List.length_drop]
    omega

namespace Repository

/-- The commits lead up to a tip: they end with its first occurrence, and none lead to the empty
tip. -/
inductive UpTo : Tip → List CommitId → Prop
  | empty : UpTo .empty []
  | commit {earlier : List CommitId} {id : CommitId} (hnew : id ∉ earlier) :
      UpTo (.commit id) (earlier ++ [id])

variable {history : List CommitId} {tip : Tip}

/-- Only the empty history leads up to the empty tip. -/
theorem upTo_empty_iff : UpTo .empty history ↔ history = [] := by
  constructor
  · intro h
    cases h
    rfl
  · intro h
    rw [h]
    exact .empty

/-- A history leads up to a commit that comes last and not before. -/
theorem upTo_commit_iff {id : CommitId} :
    UpTo (.commit id) history ↔ ∃ earlier, history = earlier ++ [id] ∧ id ∉ earlier := by
  constructor
  · intro h
    cases h with
    | commit hnew => exact ⟨_, rfl, hnew⟩
  · intro h
    obtain ⟨earlier, rfl, hnew⟩ := h
    exact .commit hnew

/-- The position of a tip is the length of the part of the history that leads up to it. -/
theorem position?_eq_some_iff {n : Nat} :
    position? history tip = some n ↔ n ≤ history.length ∧ UpTo tip (history.take n) := by
  cases tip with
  | empty =>
    rw [upTo_empty_iff, List.take_eq_nil_iff, position?, Option.some.injEq]
    constructor
    · intro h
      exact ⟨by omega, Or.inl h.symm⟩
    · intro h
      obtain ⟨hle, rfl | rfl⟩ := h
      · rfl
      · exact (Nat.le_zero.mp hle).symm
  | commit id =>
    rw [upTo_commit_iff, position?, Option.map_eq_some_iff]
    constructor
    · intro h
      obtain ⟨i, hi, rfl⟩ := h
      obtain ⟨hlt, hat, hbefore⟩ := List.idxOf?_eq_some_iff.mp hi
      refine ⟨hlt, history.take i, ?_, ?_⟩
      · rw [← hat, List.take_append_getElem]
      · intro hmem
        obtain ⟨j, hj, hsame⟩ := List.mem_take_iff_getElem.mp hmem
        exact hbefore j (by omega) hsame
    · intro h
      obtain ⟨hle, earlier, htake, hnew⟩ := h
      have hn : n = earlier.length + 1 := by
        rw [← List.length_take_of_le hle, htake, List.length_append, List.length_singleton]
      have hwhole : history = earlier ++ ([id] ++ history.drop n) := by
        rw [← List.append_assoc, ← htake, List.take_append_drop]
      have hlength : earlier.length < history.length := by omega
      refine ⟨earlier.length, List.idxOf?_eq_some_iff.mpr ⟨hlength, ?_, ?_⟩, hn.symm⟩
      · rw [List.getElem_of_eq hwhole]
        simp
      · intro j hj hsame
        rw [List.getElem_of_eq hwhole (by omega), List.getElem_append_left hj] at hsame
        rw [← hsame] at hnew
        exact hnew (List.getElem_mem hj)

/-- A tip is found at the end of a history exactly when the history leads up to it. -/
theorem position?_eq_length_iff :
    position? history tip = some history.length ↔ UpTo tip history := by
  rw [position?_eq_some_iff, List.take_length]
  exact and_iff_right (Nat.le_refl _)

/-- The tip of a history is found in it. -/
theorem exists_position?_ofHistory (history : List CommitId) :
    ∃ n, position? history (.ofHistory history) = some n := by
  by_cases hstuck : Stuck history
  · obtain ⟨n, -, hposition⟩ := hstuck.spent
    exact ⟨n, hposition⟩
  · exact ⟨history.length, position?_ofHistory hstuck⟩

/-- What an export takes from a history: of the commits after one tip and up to another, those that
a depth keeps. -/
def Exports (history : List CommitId) (base target : Tip) (depth : Depth)
    (sent : List CommitId) : Prop :=
  ∃ known commits rest, history = known ++ commits ++ rest ∧ UpTo base known ∧
    UpTo target (known ++ commits) ∧ depth.Keeps commits sent

/-- From a history without commits, nothing is exported after a commit. -/
theorem Exports.base_eq_empty {base target : Tip} {depth : Depth} {sent : List CommitId}
    (h : Exports history base target depth sent) (hnil : history = []) : base = .empty := by
  obtain ⟨known, commits, rest, hsplit, hknown, -⟩ := h
  cases hknown with
  | empty => rfl
  | commit hnew =>
    rw [hnil] at hsplit
    simp at hsplit

/-- An export succeeds exactly between two tips that are found in this order. -/
theorem exportCommits_eq_ok_iff {branch : String} {base : TipRef} {target : Tip} {depth : Depth}
    {sent : List CommitId} :
    exportCommits history branch base target depth = .ok sent ↔
      ∃ b i j, base = .tip b ∧ position? history b = some i ∧
        position? history target = some j ∧ i ≤ j ∧
        sent = depth.trim ((history.take j).drop i) := by
  simp only [exportCommits, bind_eq_ok_iff, resolve_eq_ok_iff, position_eq_ok_iff]
  constructor
  · intro h
    obtain ⟨b, hb, i, hi, j, hj, hsent⟩ := h
    by_cases hle : i ≤ j
    · rw [if_neg (by omega), pure_eq_ok_iff] at hsent
      exact ⟨b, i, j, hb, hi, hj, hle, hsent.symm⟩
    · rw [if_pos (by omega)] at hsent
      cases hsent
  · intro h
    obtain ⟨b, i, j, hb, hi, hj, hle, hsent⟩ := h
    refine ⟨b, hb, i, hi, j, hj, ?_⟩
    rw [if_neg (by omega), pure_eq_ok_iff]
    exact hsent.symm

/-- The commits of an export are those between its tips, trimmed to the depth. -/
theorem exports_of_exportCommits {branch : String} {base : TipRef} {target : Tip} {depth : Depth}
    {sent : List CommitId} (h : exportCommits history branch base target depth = .ok sent) :
    ∃ b, base = .tip b ∧ Exports history b target depth sent := by
  obtain ⟨b, i, j, hb, hi, hj, hle, rfl⟩ := exportCommits_eq_ok_iff.mp h
  obtain ⟨-, hknown⟩ := position?_eq_some_iff.mp hi
  obtain ⟨-, htarget⟩ := position?_eq_some_iff.mp hj
  have hjoin : history.take i ++ (history.take j).drop i = history.take j := by
    have hparts := List.take_append_drop i (history.take j)
    rwa [List.take_take, Nat.min_eq_left hle] at hparts
  refine ⟨b, hb, history.take i, (history.take j).drop i, history.drop j, ?_, hknown, ?_,
    depth.keeps_trim _⟩
  · rw [hjoin, List.take_append_drop]
  · rw [hjoin]
    exact htarget

end Repository

end BranchSync
