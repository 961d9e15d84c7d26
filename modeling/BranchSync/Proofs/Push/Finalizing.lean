import BranchSync.Proofs.Accounts.Answers
import BranchSync.Proofs.Repository.FastForward
import BranchSync.Push.Request

/-!
# Finalizing a push over accounts in memory

A push that is run against accounts in memory is decided by four questions in a row: whether
the principal may touch the branch, whether the account has a repository, whether the payload
was usable, and whether the repository takes the pack. The policy's check of the start tip asks
nothing that the repository would not refuse as well, so it does not show in the result. A
refused push leaves the accounts as they were.
-/

namespace BranchSync

/-- A mailbox that was told a tip: the tip is made visible if it differs from the pending one. -/
def Mailbox.announce (m : Mailbox) (branch tip : String) : Mailbox :=
  if (m.updateChannelTip branch tip).1 then (m.updateChannelTip branch tip).2.commit
  else (m.updateChannelTip branch tip).2

namespace Accounts

/-- The accounts after the owner's mailbox, if there is one, was told the tip of a branch. -/
def announce (a : Accounts) (target : BranchRef) (tip : Tip) : Accounts :=
  match a.mailboxes.get? target.user with
  | none => a
  | some m =>
    { a with mailboxes := a.mailboxes.insert target.user (m.announce target.branch tip.toHex) }

/-- The accounts after a push left a repository behind; the owner is told unless the owner
pushed. -/
def afterPush (a : Accounts) (principal : Principal) (target : BranchRef) (r : Repository) :
    Accounts :=
  let stored := { a with repositories := a.repositories.insert target.user r }
  if principal.owns target.user then stored else stored.announce target (r.tip target.branch)

/-- An announcement does not touch repositories. -/
@[simp] theorem announce_repositories (a : Accounts) (target : BranchRef) (tip : Tip) :
    (a.announce target tip).repositories = a.repositories := by
  unfold announce
  split <;> rfl

/-- An announcement reaches the mailbox of the owner, if there is one, and no other. -/
theorem mailbox_announce (a : Accounts) (target : BranchRef) (tip : Tip) (user : String) :
    (a.announce target tip).mailboxes.get? user =
      if target.user = user then
        (a.mailboxes.get? user).map fun m => m.announce target.branch tip.toHex
      else a.mailboxes.get? user := by
  unfold announce
  by_cases huser : target.user = user
  · subst huser
    rw [if_pos rfl]
    cases hm : a.mailboxes.get? target.user with
    | none => exact hm
    | some m => simp
  · rw [if_neg huser]
    cases a.mailboxes.get? target.user with
    | none => rfl
    | some m => exact Table.get?_insert_of_ne _ _ huser

/-- A push is announced to the owner of the branch, unless the owner pushed. -/
theorem mailbox_afterPush (a : Accounts) (principal : Principal) (target : BranchRef)
    (r : Repository) (user : String) :
    (a.afterPush principal target r).mailboxes.get? user =
      if target.user = user ∧ principal.owns target.user = false then
        (a.mailboxes.get? user).map fun m => m.announce target.branch (r.tip target.branch).toHex
      else a.mailboxes.get? user := by
  unfold afterPush
  cases howns : principal.owns target.user with
  | true => simp
  | false =>
    simp only [Bool.false_eq_true, if_false, and_true]
    exact mailbox_announce _ target (r.tip target.branch) user

/-- A push leaves its repository behind and no other. -/
theorem afterPush_repositories (a : Accounts) (principal : Principal) (target : BranchRef)
    (r : Repository) :
    (a.afterPush principal target r).repositories = a.repositories.insert target.user r := by
  unfold afterPush
  split <;> simp

/-- The accounts after a push know the accounts that were known before it. -/
theorem repositories_isSome_afterPush {a : Accounts} {r : Repository} {target : BranchRef}
    (hr : a.repositories.get? target.user = some r) (principal : Principal) (r' : Repository)
    (user : String) :
    ((a.afterPush principal target r').repositories.get? user).isSome =
      (a.repositories.get? user).isSome := by
  rw [afterPush_repositories, Table.get?_insert]
  by_cases h : target.user = user
  · rw [if_pos h, ← h, hr]
    rfl
  · rw [if_neg h]

/-- A push to one branch is seen in the history of that branch and of no other. -/
theorem history_afterPush {a : Accounts} {r : Repository} {target : BranchRef}
    (hr : a.repositories.get? target.user = some r) (principal : Principal)
    (commits : List CommitId) (t : BranchRef) :
    (a.afterPush principal target (r.setHistory target.branch commits)).history t =
      if t = target then commits else a.history t := by
  unfold history
  rw [afterPush_repositories, Table.get?_insert]
  obtain ⟨user, branch⟩ := target
  obtain ⟨user', branch'⟩ := t
  by_cases huser : user = user'
  · subst huser
    by_cases hbranch : branch = branch'
    · subst hbranch
      simp [Repository.history_setHistory]
    · simp [Repository.history_setHistory, hbranch, Ne.symm hbranch, hr]
  · simp [huser, Ne.symm huser]

end Accounts

namespace PushRequest

/-- Over accounts in memory, notifying the owner is an announcement. -/
theorem run_notifyOwner (target : BranchRef) (tip : Tip) (a : Accounts) :
    (notifyOwner target tip).run Accounts.answer a = ((), a.announce target tip) := by
  unfold notifyOwner Accounts.announce
  rw [BackendProgram.run_bind, Accounts.run_ask_mailbox]
  cases hm : a.mailboxes.get? target.user with
  | none => rfl
  | some m =>
    simp only [Option.isSome_some, if_true]
    rw [BackendProgram.run_bind, Accounts.run_ask_updateChannelTip hm, Mailbox.announce]
    cases hchanged : (m.updateChannelTip target.branch tip.toHex).1 with
    | false => simp
    | true =>
      rw [BackendProgram.run_bind, Accounts.run_ask_commitMailbox (Table.get?_insert_self _ _ _)]
      simp [Table.insert_insert]

/-- Over accounts in memory, a transfer is decided by the import alone. -/
theorem run_transfer {a : Accounts} {request : PushRequest} {r : Repository}
    (hr : a.repositories.get? request.target.user = some r) (principal : Principal) :
    (request.transfer principal).run Accounts.answer a =
      match r.importPack request.target.branch (request.pack.getD []) request.start
        request.last with
      | .error _ => (refuse .importFailed, a)
      | .ok r' => (request.accept (r'.tip request.target.branch),
          a.afterPush principal request.target r') := by
  unfold transfer
  rw [BackendProgram.run_bind]
  cases himport : r.importPack request.target.branch (request.pack.getD []) request.start
      request.last with
  | error e =>
    rw [Accounts.run_ask_importPack_error hr himport]
    rfl
  | ok r' =>
    rw [Accounts.run_ask_importPack_ok hr himport]
    simp only
    rw [BackendProgram.run_bind, Accounts.run_ask_tip,
      Accounts.withRepository_eq (Table.get?_insert_self _ _ _)]
    cases howns : principal.owns request.target.user with
    | true => simp [Accounts.afterPush, howns]
    | false => simp [Accounts.afterPush, howns, run_notifyOwner]

/-- Over accounts in memory, the start is current when it is a token or the tip of the branch. -/
theorem run_startIsCurrent {a : Accounts} {request : PushRequest} {r : Repository}
    (hr : a.repositories.get? request.target.user = some r) :
    request.startIsCurrent.run Accounts.answer a =
      match request.start with
      | .token _ => (true, a)
      | .tip expected => (decide (r.tip request.target.branch = expected), a) := by
  unfold startIsCurrent
  cases request.start with
  | token text => rfl
  | tip expected =>
    simp only
    rw [BackendProgram.run_bind, Accounts.run_ask_tip, Accounts.withRepository_eq hr]
    rfl

/-- A push whose start is found outdated would not be imported either. -/
theorem importPack_error_of_outdated {r : Repository} {request : PushRequest} {expected : Tip}
    (hstart : request.start = .tip expected)
    (houtdated : r.tip request.target.branch ≠ expected) :
    ∃ e, r.importPack request.target.branch (request.pack.getD []) request.start request.last =
      .error e := by
  cases himport : r.importPack request.target.branch (request.pack.getD []) request.start
      request.last with
  | error e => exact ⟨e, rfl⟩
  | ok r' =>
    obtain ⟨commits, tip, -, htip, hend, -⟩ := Repository.importPack_eq_ok_iff.mp himport
    have hsame : expected = tip := by simpa [hstart] using htip
    rw [hsame, Repository.eq_ofHistory_of_position? hend] at houtdated
    exact absurd rfl houtdated

/-- Over accounts in memory, checking the start before the transfer makes no difference. -/
theorem run_verified_transfer {a : Accounts} {request : PushRequest} {r : Repository}
    (hr : a.repositories.get? request.target.user = some r) (principal : Principal) :
    (do
      if ← request.startIsCurrent then request.transfer principal
      else pure (refuse .importFailed)).run Accounts.answer a =
      (request.transfer principal).run Accounts.answer a := by
  rw [BackendProgram.run_bind, run_startIsCurrent hr]
  cases hstart : request.start with
  | token text => rfl
  | tip expected =>
    by_cases hcurrent : r.tip request.target.branch = expected
    · simp [hcurrent]
    · obtain ⟨e, himport⟩ := importPack_error_of_outdated hstart hcurrent
      rw [run_transfer hr, himport]
      simp [hcurrent]

/-- Over accounts in memory, a push is decided by access, by the existence of the account, by the
payload and by the import, in this order. -/
theorem run_finalize (request : PushRequest) (context : SyncContext)
    (fault : Option ProtocolError) (a : Accounts) :
    (request.finalize context fault).run Accounts.answer a =
      if context.principal.canAccess request.target then
        match a.repositories.get? request.target.user with
        | none => (refuse .noSuchBranch, a)
        | some r =>
          if fault.isSome then (refuse .importFailed, a)
          else
            match r.importPack request.target.branch (request.pack.getD []) request.start
              request.last with
            | .error _ => (refuse .importFailed, a)
            | .ok r' => (request.accept (r'.tip request.target.branch),
                a.afterPush context.principal request.target r')
      else (refuse .accessDenied, a) := by
  unfold finalize
  by_cases haccess : context.principal.canAccess request.target = true
  · rw [if_pos haccess, if_pos haccess, BackendProgram.run_bind, Accounts.run_ask_repository]
    cases hr : a.repositories.get? request.target.user with
    | none => rfl
    | some r =>
      simp only [Option.isSome_some, if_true]
      cases hfault : fault.isSome with
      | true => rfl
      | false =>
        simp only [Bool.false_eq_true, if_false]
        rw [← run_transfer hr context.principal]
        by_cases hverify : context.policy.verifyStartTip = true
        · rw [if_pos hverify]
          exact run_verified_transfer hr context.principal
        · rw [if_neg hverify]
  · rw [if_neg haccess, if_neg haccess]
    rfl

/-- Over accounts in memory, an authorized push with a usable payload that the repository takes is
applied. -/
theorem run_finalize_of_import {request : PushRequest} {context : SyncContext} {a : Accounts}
    {r r' : Repository} (haccess : context.principal.canAccess request.target = true)
    (hr : a.repositories.get? request.target.user = some r)
    (himport : r.importPack request.target.branch (request.pack.getD []) request.start
      request.last = .ok r') :
    (request.finalize context none).run Accounts.answer a =
      (request.accept (r'.tip request.target.branch),
        a.afterPush context.principal request.target r') := by
  rw [run_finalize, if_pos haccess, hr]
  simp [himport]

/-- A push over accounts in memory is refused without a trace, or it was authorized and leaves
behind the repository that took its pack. -/
theorem finalize_cases (request : PushRequest) (context : SyncContext)
    (fault : Option ProtocolError) (a : Accounts) :
    (∃ failure, (request.finalize context fault).run Accounts.answer a = (refuse failure, a)) ∨
    ∃ r r', context.principal.canAccess request.target = true ∧
      a.repositories.get? request.target.user = some r ∧
      r.importPack request.target.branch (request.pack.getD []) request.start request.last =
        .ok r' ∧
      (request.finalize context fault).run Accounts.answer a =
        (request.accept (r'.tip request.target.branch),
          a.afterPush context.principal request.target r') := by
  by_cases haccess : context.principal.canAccess request.target = true
  · cases hr : a.repositories.get? request.target.user with
    | none =>
      refine Or.inl ⟨.noSuchBranch, ?_⟩
      simp [run_finalize, haccess, hr]
    | some r =>
      cases fault with
      | some fault =>
        refine Or.inl ⟨.importFailed, ?_⟩
        simp [run_finalize, haccess, hr]
      | none =>
        cases himport : r.importPack request.target.branch (request.pack.getD []) request.start
            request.last with
        | error e =>
          refine Or.inl ⟨.importFailed, ?_⟩
          simp [run_finalize, haccess, hr, himport]
        | ok r' =>
          exact Or.inr ⟨r, r', haccess, rfl, himport, run_finalize_of_import haccess hr himport⟩
  · refine Or.inl ⟨.accessDenied, ?_⟩
    rw [run_finalize, if_neg haccess]

end PushRequest

end BranchSync
