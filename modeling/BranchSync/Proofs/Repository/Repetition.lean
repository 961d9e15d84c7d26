import BranchSync.Proofs.Repository.FastForward

/-!
# Histories that end in a repetition

A tip is located by its first occurrence. If the last commit of a history also occurs earlier, the
tip of the history is found there and not at the end. Nothing can be imported into such a history
any more, since no other tip is found at its end either, and an export up to its tip stops short.
A history without repeated commits never comes to that.
-/

namespace BranchSync.Repository

/-- The last commit of a history also occurs before its end. -/
def Stuck (history : List CommitId) : Prop :=
  ∃ before id, history = before ++ [id] ∧ id ∈ before

/-- The tip of a history is found at its end, unless the history is stuck. -/
theorem position?_ofHistory {history : List CommitId} (h : ¬ Stuck history) :
    position? history (.ofHistory history) = some history.length := by
  rcases List.eq_nil_or_concat history with rfl | ⟨before, id, rfl⟩
  · rfl
  · rw [List.concat_eq_append] at h ⊢
    have hnew : id ∉ before := fun hmem => h ⟨before, id, rfl, hmem⟩
    have htip : Tip.ofHistory (before ++ [id]) = .commit id := by
      simp [Tip.ofHistory]
    have hlength : before.length < (before ++ [id]).length := by
      simp
    rw [htip]
    refine Option.map_eq_some_iff.mpr ⟨before.length, List.idxOf?_eq_some_iff.mpr ?_, by simp⟩
    refine ⟨hlength, by simp, ?_⟩
    intro j hj hsame
    rw [List.getElem_append_left hj] at hsame
    rw [← hsame] at hnew
    exact hnew (List.getElem_mem hj)

/-- The tip of a stuck history is found before its end. -/
theorem Stuck.spent {history : List CommitId} (h : Stuck history) :
    Spent history (.ofHistory history) := by
  obtain ⟨before, id, rfl, hmem⟩ := h
  have htip : Tip.ofHistory (before ++ [id]) = .commit id := by
    simp [Tip.ofHistory]
  obtain ⟨i, hi⟩ := Option.isSome_iff_exists.mp (List.isSome_idxOf?.mpr hmem)
  obtain ⟨hlt, -⟩ := List.idxOf?_eq_some_iff.mp hi
  have hposition : position? before (.commit id) = some (i + 1) :=
    Option.map_eq_some_iff.mpr ⟨i, hi, rfl⟩
  rw [htip]
  refine ⟨i + 1, ?_, position?_append hposition [id]⟩
  rw [List.length_append, List.length_singleton]
  omega

/-- A history without repeated commits is not stuck. -/
theorem not_stuck_of_nodup {history : List CommitId} (h : history.Nodup) : ¬ Stuck history := by
  intro hstuck
  obtain ⟨before, id, rfl, hmem⟩ := hstuck
  obtain ⟨-, -, hapart⟩ := List.nodup_append.mp h
  exact hapart id hmem id (List.mem_singleton_self id) rfl

/-- No tip at all is found at the end of a stuck history. -/
theorem Stuck.position?_ne {history : List CommitId} (h : Stuck history) (tip : Tip) :
    position? history tip ≠ some history.length := by
  intro hend
  rw [eq_ofHistory_of_position? hend] at hend
  exact h.spent.position?_ne hend

/-- A pack is imported into a history that is not stuck when it starts at the tip of the history
and announces where it leads. -/
theorem importPack_of_not_stuck {r : Repository} {branch : String}
    (h : ¬ Stuck (r.history branch)) (commits : List CommitId) {pack : List UInt8}
    (hpack : Pack.decode pack = .ok commits) :
    r.importPack branch pack (.tip (.ofHistory (r.history branch)))
        (.tip (.ofHistory (r.history branch ++ commits))) =
      .ok (r.setHistory branch (r.history branch ++ commits)) :=
  importPack_eq_ok_iff.mpr ⟨commits, _, hpack, rfl, position?_ofHistory h, rfl, rfl⟩

/-- An export is the part of a history between the positions of its tips. -/
theorem exportCommits_of_positions {history : List CommitId} {base target : Tip} {i j : Nat}
    (hi : position? history base = some i) (hj : position? history target = some j) (hle : i ≤ j)
    (branch : String) (depth : Depth) :
    exportCommits history branch (.tip base) target depth =
      .ok (depth.trim ((history.take j).drop i)) := by
  have hbase : position history branch base = .ok i := position_eq_ok_iff.mpr hi
  have htarget : position history branch target = .ok j := position_eq_ok_iff.mpr hj
  unfold exportCommits
  simp only [resolve]
  change (position history branch base >>= fun start => position history branch target >>= _) = _
  rw [hbase, htarget]
  exact if_neg (Nat.not_lt.mpr hle)

end BranchSync.Repository
