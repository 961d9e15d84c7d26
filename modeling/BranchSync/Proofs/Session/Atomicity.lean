import BranchSync.Proofs.Session.Closing
import BranchSync.Proofs.Session.Reachable

/-!
# An event changes everything it has to or nothing

Over accounts in memory, the only event of a session that leaves a trace in the storage is the
end tag that leads from depth one to the top level with a push in flight, and only if that push
is applied. Every other event leaves all repositories and all mailboxes as they were, whether it
is served, refused or only buffered: no history grows, no branch appears, no mailbox records a
call. An applied push changes one branch of one repository, and one mailbox if someone other than
the owner pushed.
-/

namespace BranchSync

/-- From one state of the accounts to another, at most one branch of one repository changed and,
unless the principal owns that repository, the mailbox of its account. -/
structure Accounts.ChangedOnlyAt (target : BranchRef) (principal : Principal)
    (before after : Accounts) : Prop where
  other_repositories : ∀ user, user ≠ target.user →
    after.repositories.get? user = before.repositories.get? user
  other_branches : ∃ r r', before.repositories.get? target.user = some r ∧
    after.repositories.get? target.user = some r' ∧
      ∀ branch, branch ≠ target.branch → r'.branches.get? branch = r.branches.get? branch
  other_mailboxes : ∀ user, user ≠ target.user →
    after.mailboxes.get? user = before.mailboxes.get? user
  own_mailbox : principal.owns target.user = true → after.mailboxes = before.mailboxes

/-- An applied push changes its branch and the mailbox that is told, and nothing else. -/
theorem Accounts.changedOnlyAt_afterPush {a : Accounts} {r : Repository} {target : BranchRef}
    (hr : a.repositories.get? target.user = some r) (principal : Principal)
    (history : List CommitId) :
    ChangedOnlyAt target principal a
      (a.afterPush principal target (r.setHistory target.branch history)) where
  other_repositories := by
    intro user hne
    rw [afterPush_repositories, Table.get?_insert_of_ne _ _ (Ne.symm hne)]
  other_branches := by
    refine ⟨r, r.setHistory target.branch history, hr, ?_, ?_⟩
    · rw [afterPush_repositories, Table.get?_insert_self]
    · intro branch hne
      exact Table.get?_insert_of_ne _ _ (Ne.symm hne)
  other_mailboxes := by
    intro user hne
    rw [mailbox_afterPush, if_neg fun htold => hne htold.1.symm]
  own_mailbox := by
    intro howns
    simp [afterPush, howns]

namespace Session

/-- An event is the end tag of a push in flight that leads from depth one to the top level, and
over the given accounts the push is applied. -/
def Applies (s : Session) (event : ParseEvent) (a : Accounts) (request : PushRequest) : Prop :=
  s.depth = 1 ∧ (∃ name, event = .closeTag name) ∧
    ∃ collector fault tip, s.push = some (.awaitingPayload request collector fault) ∧
      ((request.finalize s.context fault).run Accounts.answer a).1.outcome = .applied tip

/-- In a state that a session reaches, an event that runs a push finds the session at depth one. -/
theorem Reachable.depth_of_closing {s : Session} (h : s.Reachable) {event : ParseEvent}
    {request : PushRequest} {fault : Option ProtocolError}
    (hclosing : s.closing? event = some (request, fault)) : s.depth = 1 := by
  obtain ⟨hle, -, collector, hpush⟩ := closing?_eq_some_iff.mp hclosing
  obtain ⟨hge, -⟩ := h.sound _ hpush
  omega

/-- An event that applies a push leaves behind what finalizing the push leaves behind. -/
theorem Applies.storage_eq {s : Session} {event : ParseEvent} {a : Accounts}
    {request : PushRequest} (h : s.Applies event a request) :
    ∃ r history, a.repositories.get? request.target.user = some r ∧
      ((s.handleEvent event).run Accounts.answer a).2 =
        a.afterPush s.context.principal request.target
          (r.setHistory request.target.branch history) := by
  obtain ⟨hdepth, hend, collector, fault, tip, hpush, happlied⟩ := h
  have hclosing : s.closing? event = some (request, fault) :=
    closing?_eq_some_iff.mpr ⟨Nat.le_of_eq hdepth, hend, collector, hpush⟩
  rw [handleEvent_of_closing hclosing, BackendProgram.run_bind]
  rcases PushRequest.finalize_cases request s.context fault a with
    ⟨failure, hrun⟩ | ⟨r, r', -, hr, himport, hrun⟩
  · rw [hrun] at happlied
    cases happlied
  · obtain ⟨commits, -, -, -, -, -, hr'⟩ := Repository.importPack_eq_ok_iff.mp himport
    refine ⟨r, r.history request.target.branch ++ commits, hr, ?_⟩
    rw [hrun, ← hr']
    rfl

/-- An event of a session changes no accounts in memory, repositories and mailboxes alike, unless
it closes a push that is applied, and then only the branch that was pushed to and the mailbox of
an owner who did not push. -/
theorem storage_unchanged_unless_applied {s : Session} (hs : s.Reachable) (event : ParseEvent)
    (a : Accounts) :
    let after := ((s.handleEvent event).run Accounts.answer a).2
    ((∀ request, ¬ s.Applies event a request) → after = a) ∧
      ∀ request, s.Applies event a request →
        a.ChangedOnlyAt request.target s.context.principal after := by
  intro after
  constructor
  · intro hnone
    cases hclosing : s.closing? event with
    | none => exact run_handleEvent_storage hclosing a
    | some closing =>
      obtain ⟨request, fault⟩ := closing
      obtain ⟨-, hend, collector, hpush⟩ := closing?_eq_some_iff.mp hclosing
      change ((s.handleEvent event).run Accounts.answer a).2 = a
      rw [handleEvent_of_closing hclosing, BackendProgram.run_bind]
      rcases PushRequest.finalize_cases request s.context fault a with
        ⟨failure, hrun⟩ | ⟨r, r', -, -, -, hrun⟩
      · rw [hrun]
        rfl
      · refine absurd ?_ (hnone request)
        exact ⟨hs.depth_of_closing hclosing, hend, collector, fault, _, hpush, by rw [hrun]; rfl⟩
  · intro request happlies
    obtain ⟨r, history, hr, hafter⟩ := happlies.storage_eq
    change a.ChangedOnlyAt request.target s.context.principal
      ((s.handleEvent event).run Accounts.answer a).2
    rw [hafter]
    exact Accounts.changedOnlyAt_afterPush hr s.context.principal history

/-- A party that holds a grant for `main` of `alice`. -/
def guest : SyncContext := ⟨.delegated (.ofList [.ofParts "alice" "main"]), .default⟩

/-- The header of a push that leads from the empty tip to itself. -/
def emptyPush : Element :=
  .ofAttributes Vocabulary.syncPush [(Vocabulary.branch, "main"), (Vocabulary.startCommit, ""),
    (Vocabulary.lastCommit, ""), (Vocabulary.serverUser, "alice")]

/-- The session of the party after the header of its push. -/
def guestPushing : Session :=
  (((new guest).handleEvent (.openTag emptyPush)).run Accounts.answer
    (Accounts.empty.addAccount "alice")).1.2

/-- The push of the party creates `main` of `alice` and is told to `alice`, and that is all. -/
theorem guestPushing_changedOnlyAt :
    let accounts := Accounts.empty.addAccount "alice"
    let after := ((guestPushing.handleEvent (.closeTag Vocabulary.syncPush)).run Accounts.answer
      accounts).2
    guestPushing.Reachable ∧ accounts.ChangedOnlyAt ⟨"alice", "main"⟩ guest.principal after ∧
      after ≠ accounts := by
  intro accounts after
  have hreachable : guestPushing.Reachable := .event (.new guest) _ _ _
  have happlies : guestPushing.Applies (.closeTag Vocabulary.syncPush) accounts
      ⟨⟨"alice", "main"⟩, .tip .empty, .tip .empty, none⟩ :=
    ⟨rfl, ⟨_, rfl⟩, .new none, none, .empty, rfl, rfl⟩
  exact ⟨hreachable, (storage_unchanged_unless_applied hreachable _ accounts).2 _ happlies,
    by decide⟩

end Session

end BranchSync
