import BranchSync.Proofs.Repository.PackForm
import BranchSync.Proofs.Repository.Repetition

/-!
# Copying a history that repeats nothing

In a history without repeated commits, the tip of a prefix is found at the end of the prefix. The
export from there is the rest of the history, and importing it into the prefix makes up the whole.
-/

namespace BranchSync.Repository

variable {copied history : List CommitId}

/-- In a history without repetitions, the tip of a prefix is found where the prefix ends. -/
theorem position?_ofHistory_of_isPrefix (hnodup : history.Nodup) (h : copied <+: history) :
    position? history (.ofHistory copied) = some copied.length := by
  have hfree : ¬ Stuck copied := not_stuck_of_nodup (hnodup.sublist h.sublist)
  obtain ⟨rest, rfl⟩ := h
  exact position?_append (position?_ofHistory hfree) rest

/-- The export of a history without repetitions to a copy of its beginning is what the copy
lacks. -/
theorem exportCommits_of_isPrefix (hnodup : history.Nodup) (h : copied <+: history)
    (branch : String) :
    exportCommits history branch (.tip (.ofHistory copied)) (.ofHistory history) .unbounded =
      .ok (history.drop copied.length) := by
  have hend := position?_ofHistory (not_stuck_of_nodup hnodup)
  rw [exportCommits_of_positions (position?_ofHistory_of_isPrefix hnodup h) hend h.length_le,
    Depth.trim, List.take_length]

/-- Importing what a copy lacks makes it complete. -/
theorem importPack_of_isPrefix {r : Repository} {branch : String} (hnodup : history.Nodup)
    (h : r.history branch <+: history) :
    r.importPack branch (Pack.encode (history.drop (r.history branch).length))
        (.tip (.ofHistory (r.history branch))) (.tip (.ofHistory history)) =
      .ok (r.setHistory branch history) := by
  have hwhole : r.history branch ++ history.drop (r.history branch).length = history :=
    List.prefix_iff_eq_append.mp h
  have hfree : ¬ Stuck (r.history branch) := not_stuck_of_nodup (hnodup.sublist h.sublist)
  have himport := importPack_of_not_stuck hfree _
    (Pack.decode_encode (history.drop (r.history branch).length))
  rw [hwhole] at himport
  exact himport

end BranchSync.Repository
