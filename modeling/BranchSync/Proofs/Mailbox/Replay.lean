import BranchSync.Mailbox
import Mathlib.Data.List.Induction

/-!
# A mailbox says what its record says

An update writes to the pending tips, a commit copies all of them, and both are added to the record.
The three are written separately, and what ties them together is that either table can be read off
the record: the pending tip of a branch is the last one recorded for it, and the visible one is the
last recorded for it before the last commit. Nothing is assumed about the order of the calls.
-/

namespace BranchSync

section

variable {α : Type} {kind : α → Prop} {log before : List α} {entry x : α}

/-- An entry is the last of its kind in a log, and these are the entries before it. -/
def LastOf (kind : α → Prop) (log before : List α) (x : α) : Prop :=
  kind x ∧ ∃ after, log = before ++ x :: after ∧ ∀ y ∈ after, ¬ kind y

/-- The last entry of a kind is in the log. -/
theorem LastOf.mem (h : LastOf kind log before x) : x ∈ log := by
  obtain ⟨-, after, rfl, -⟩ := h
  exact List.mem_append_right before List.mem_cons_self

/-- An entry of the kind that is added to a log becomes the last one. -/
theorem lastOf_concat_of (h : kind entry) :
    LastOf kind (log ++ [entry]) before x ↔ before = log ∧ x = entry := by
  constructor
  · intro hlast
    obtain ⟨-, after, hsplit, hafter⟩ := hlast
    rcases List.eq_nil_or_concat after with rfl | ⟨rest, y, rfl⟩
    · obtain ⟨hlog, hentry⟩ := List.append_inj' hsplit rfl
      exact ⟨hlog.symm, (List.singleton_inj.mp hentry).symm⟩
    · rw [List.concat_eq_append, ← List.cons_append, ← List.append_assoc] at hsplit
      have hentry := List.singleton_inj.mp (List.append_inj' hsplit rfl).2
      rw [hentry] at h
      exact absurd h (hafter y (by simp))
  · intro hlast
    obtain ⟨rfl, rfl⟩ := hlast
    exact ⟨h, [], rfl, by simp⟩

/-- An entry of another kind that is added to a log leaves the last one in its place. -/
theorem lastOf_concat_of_not (h : ¬ kind entry) :
    LastOf kind (log ++ [entry]) before x ↔ LastOf kind log before x := by
  constructor
  · intro hlast
    obtain ⟨hx, after, hsplit, hafter⟩ := hlast
    rcases List.eq_nil_or_concat after with rfl | ⟨rest, y, rfl⟩
    · have hentry := List.singleton_inj.mp (List.append_inj' hsplit rfl).2
      rw [hentry] at h
      exact absurd hx h
    · rw [List.concat_eq_append] at hsplit hafter
      rw [← List.cons_append, ← List.append_assoc] at hsplit
      exact ⟨hx, rest, (List.append_inj' hsplit rfl).1,
        fun z hz => hafter z (List.mem_append_left _ hz)⟩
  · intro hlast
    obtain ⟨hx, after, rfl, hafter⟩ := hlast
    refine ⟨hx, after ++ [entry], by simp, ?_⟩
    intro y hy
    rcases List.mem_append.mp hy with hy | hy
    · exact hafter y hy
    · rw [List.mem_singleton.mp hy]
      exact h

/-- A log that has an entry of a kind has a last one. -/
theorem exists_lastOf (hmem : x ∈ log) (hx : kind x) : ∃ before y, LastOf kind log before y := by
  induction log using List.reverseRecOn with
  | nil => cases hmem
  | append_singleton log entry ih =>
    by_cases h : kind entry
    · exact ⟨log, entry, (lastOf_concat_of h).mpr ⟨rfl, rfl⟩⟩
    · rcases List.mem_append.mp hmem with hmem | hmem
      · obtain ⟨before, y, hlast⟩ := ih hmem
        exact ⟨before, y, (lastOf_concat_of_not h).mpr hlast⟩
      · rw [List.mem_singleton.mp hmem] at hx
        exact absurd hx h

end

namespace MailboxEvent

variable {log : List MailboxEvent} {branch tip : String}

/-- The event records a tip for the branch. -/
def Tells (branch : String) (event : MailboxEvent) : Prop :=
  ∃ tip, event = .channelTip branch tip

/-- The event records a commit. -/
def Commits (event : MailboxEvent) : Prop :=
  event = .commit

/-- The tip is the last one that is recorded for the branch. -/
def LastTold (log : List MailboxEvent) (branch tip : String) : Prop :=
  ∃ before, LastOf (Tells branch) log before (.channelTip branch tip)

/-- The tip is the last one that is recorded for the branch before the last commit. -/
def LastPublished (log : List MailboxEvent) (branch tip : String) : Prop :=
  ∃ before, LastOf Commits log before .commit ∧ LastTold before branch tip

/-- A recorded tip is the last one of its branch and changes nothing for the others. -/
theorem lastTold_concat_channelTip {other newest : String} :
    LastTold (log ++ [.channelTip other newest]) branch tip ↔
      if other = branch then newest = tip else LastTold log branch tip := by
  unfold LastTold
  by_cases hbranch : other = branch
  · subst hbranch
    have htells : Tells other (.channelTip other newest) := ⟨newest, rfl⟩
    simp only [lastOf_concat_of htells, channelTip.injEq, true_and, exists_eq_left, if_true]
    exact eq_comm
  · have htells : ¬ Tells branch (.channelTip other newest) := by
      intro h
      obtain ⟨t, ht⟩ := h
      exact hbranch (channelTip.inj ht).1
    simp only [lastOf_concat_of_not htells, if_neg hbranch]

/-- A commit records no tip. -/
theorem lastTold_concat_commit : LastTold (log ++ [.commit]) branch tip ↔ LastTold log branch tip := by
  have htells : ¬ Tells branch .commit := by
    intro h
    obtain ⟨t, ht⟩ := h
    cases ht
  simp only [LastTold, lastOf_concat_of_not htells]

/-- A recorded tip is not published by being recorded. -/
theorem lastPublished_concat_channelTip {other newest : String} :
    LastPublished (log ++ [.channelTip other newest]) branch tip ↔ LastPublished log branch tip := by
  have hcommits : ¬ Commits (.channelTip other newest) := by
    intro h
    cases h
  simp only [LastPublished, lastOf_concat_of_not hcommits]

/-- A commit publishes the last recorded tips. -/
theorem lastPublished_concat_commit :
    LastPublished (log ++ [.commit]) branch tip ↔ LastTold log branch tip := by
  have hcommits : Commits .commit := rfl
  simp only [LastPublished, lastOf_concat_of hcommits, and_true, exists_eq_left]

end MailboxEvent

namespace Mailbox

open MailboxEvent

/-- A call to a mailbox, named by the event that records it. -/
def call (m : Mailbox) : MailboxEvent → Mailbox
  | .channelTip branch tip => (m.updateChannelTip branch tip).2
  | .commit => m.commit

/-- Both tables of a mailbox can be read off its record. -/
structure Recorded (m : Mailbox) : Prop where
  pending_iff : ∀ branch tip, m.pending.get? branch = some tip ↔ LastTold m.events branch tip
  committed_iff : ∀ branch tip,
    m.committed.get? branch = some tip ↔ LastPublished m.events branch tip

/-- A call is added to the record. -/
theorem events_call (m : Mailbox) (event : MailboxEvent) :
    (m.call event).events = m.events ++ [event] := by
  cases event <;> rfl

/-- Calls are recorded in their order. -/
theorem events_foldl_call (m : Mailbox) (calls : List MailboxEvent) :
    (calls.foldl call m).events = m.events ++ calls := by
  induction calls generalizing m with
  | nil => exact (List.append_nil m.events).symm
  | cons event rest ih => rw [List.foldl_cons, ih, events_call, List.append_assoc, List.singleton_append]

/-- A mailbox that was never called has nothing in its tables and nothing on record. -/
theorem recorded_empty : empty.Recorded := by
  have hnone (branch tip : String) : ¬ LastTold [] branch tip := by
    intro h
    obtain ⟨before, hlast⟩ := h
    exact List.not_mem_nil hlast.mem
  refine ⟨?_, ?_⟩
  · intro branch tip
    exact iff_of_false (by simp [empty]) (hnone branch tip)
  · intro branch tip
    refine iff_of_false (by simp [empty]) ?_
    intro h
    obtain ⟨before, hlast, -⟩ := h
    exact List.not_mem_nil hlast.mem

/-- A call keeps both tables in agreement with the record. -/
theorem Recorded.call {m : Mailbox} (h : m.Recorded) (event : MailboxEvent) :
    (m.call event).Recorded := by
  cases event with
  | channelTip other newest =>
    refine ⟨?_, ?_⟩
    · intro branch tip
      change (m.pending.insert other newest).get? branch = some tip ↔ _
      rw [events_call, lastTold_concat_channelTip, Table.get?_insert]
      by_cases hbranch : other = branch
      · rw [if_pos hbranch, if_pos hbranch, Option.some.injEq]
      · rw [if_neg hbranch, if_neg hbranch, h.pending_iff]
    · intro branch tip
      rw [events_call, lastPublished_concat_channelTip]
      exact h.committed_iff branch tip
  | commit =>
    refine ⟨?_, ?_⟩
    · intro branch tip
      rw [events_call, lastTold_concat_commit]
      exact h.pending_iff branch tip
    · intro branch tip
      rw [events_call, lastPublished_concat_commit]
      exact h.pending_iff branch tip

/-- Calls in any order keep both tables in agreement with the record. -/
theorem Recorded.foldl_call {m : Mailbox} (h : m.Recorded) (calls : List MailboxEvent) :
    (calls.foldl Mailbox.call m).Recorded := by
  induction calls generalizing m with
  | nil => exact h
  | cons event rest ih => exact ih (h.call event)

/-- An update reports a change exactly when the record has no tip for the branch or has another one
last. -/
theorem Recorded.updateChannelTip_iff {m : Mailbox} (h : m.Recorded) (branch tip : String) :
    (m.updateChannelTip branch tip).1 = true ↔
      (∀ earlier, .channelTip branch earlier ∉ m.events) ∨
        ∃ latest, LastTold m.events branch latest ∧ latest ≠ tip := by
  have hchanged : (m.updateChannelTip branch tip).1 = true ↔ m.pending.get? branch ≠ some tip := by
    simp [updateChannelTip]
  rw [hchanged]
  cases hpending : m.pending.get? branch with
  | none =>
    refine iff_of_true (by simp) (Or.inl ?_)
    intro earlier hmem
    have htells : Tells branch (.channelTip branch earlier) := ⟨earlier, rfl⟩
    obtain ⟨before, event, hlast⟩ := exists_lastOf hmem htells
    obtain ⟨latest, rfl⟩ := hlast.1
    have hsome := (h.pending_iff branch latest).mpr ⟨before, hlast⟩
    rw [hpending] at hsome
    cases hsome
  | some latest =>
    have hlatest := (h.pending_iff branch latest).mp hpending
    constructor
    · intro hne
      exact Or.inr ⟨latest, hlatest, fun hsame => hne (congrArg some hsame)⟩
    · intro hnew hsame
      rcases hnew with hnone | ⟨other, hother, hne⟩
      · obtain ⟨before, hlast⟩ := hlatest
        exact hnone latest hlast.mem
      · have hpending' := (h.pending_iff branch other).mpr hother
        rw [hpending, hsame] at hpending'
        exact hne (Option.some.inj hpending').symm

/-- After calls in any order and for any branches, the record is the calls, a branch shows the tip
that was recorded last for it before the last commit, its pending tip is the one recorded last, and
the next update reports a change exactly when no tip was recorded for the branch or another one was
recorded last. -/
theorem tables_agree_with_record (calls : List MailboxEvent) :
    let m := calls.foldl call empty
    m.events = calls ∧
      (∀ branch tip, m.channelTip branch = some tip ↔ LastPublished m.events branch tip) ∧
      (∀ branch tip, m.pending.get? branch = some tip ↔ LastTold m.events branch tip) ∧
      ∀ branch tip, (m.updateChannelTip branch tip).1 = true ↔
        (∀ earlier, .channelTip branch earlier ∉ m.events) ∨
          ∃ latest, LastTold m.events branch latest ∧ latest ≠ tip := by
  intro m
  have hrecorded : m.Recorded := recorded_empty.foldl_call calls
  have hevents : m.events = calls := by
    rw [events_foldl_call]
    rfl
  exact ⟨hevents, hrecorded.committed_iff, hrecorded.pending_iff, hrecorded.updateChannelTip_iff⟩

/-- A commit publishes the tips of all branches, and what comes after it is pending. -/
example :
    let m := ([.channelTip "main" "aa", .channelTip "dev" "bb", .commit, .channelTip "main" "cc"] :
      List MailboxEvent).foldl call empty
    m.channelTip "main" = some "aa" ∧ m.channelTip "dev" = some "bb" ∧
      m.pending.get? "main" = some "cc" := by
  decide +kernel

end Mailbox

end BranchSync
