import BranchSync.Accounts

/-!
# What accounts in memory reply

Each call that a program may make, with the reply of accounts in memory and the accounts that
remain. Questions leave the accounts as they are; only an accepted import and the two calls to
a mailbox change anything.
-/

namespace BranchSync.Accounts

open BackendProgram (ask)

variable (a : Accounts) (user branch : String)

/-- Whether there is a repository. -/
@[simp] theorem run_ask_repository :
    (ask (.repository user)).run answer a = ((a.repositories.get? user).isSome, a) := rfl

/-- Whether there is a mailbox. -/
@[simp] theorem run_ask_mailbox :
    (ask (.mailbox user)).run answer a = ((a.mailboxes.get? user).isSome, a) := rfl

/-- The tip of a branch. -/
@[simp] theorem run_ask_tip :
    (ask (.tip user branch)).run answer a =
      (a.withRepository user fun r => .ok (r.tip branch), a) := rfl

/-- An export. -/
@[simp] theorem run_ask_exportPack (base : TipRef) (target : Tip) (depth : Depth) :
    (ask (.exportPack user branch base target depth)).run answer a =
      (a.withRepository user fun r => r.exportPack branch base target depth, a) := rfl

/-- A call for an account with a repository is a call for that repository. -/
theorem withRepository_eq {a : Accounts} {user : String} {r : Repository}
    (hr : a.repositories.get? user = some r) {α : Type}
    (f : Repository → Except RepositoryError α) : a.withRepository user f = f r := by
  rw [withRepository, hr]

/-- The history of a branch is kept in the repository of its account. -/
theorem history_eq {a : Accounts} {r : Repository} {target : BranchRef}
    (hr : a.repositories.get? target.user = some r) :
    a.history target = r.history target.branch := by
  simp [history, hr]

/-- A refused import. -/
theorem run_ask_importPack_error {a : Accounts} {user branch : String} {pack : List UInt8}
    {start last : TipRef} {r : Repository} {e : RepositoryError}
    (hr : a.repositories.get? user = some r)
    (himport : r.importPack branch pack start last = .error e) :
    (ask (.importPack user branch pack start last)).run answer a = (.error e, a) := by
  change answer (.importPack user branch pack start last) a = _
  simp [answer, withRepository_eq hr, himport]

/-- An accepted import. -/
theorem run_ask_importPack_ok {a : Accounts} {user branch : String} {pack : List UInt8}
    {start last : TipRef} {r r' : Repository}
    (hr : a.repositories.get? user = some r)
    (himport : r.importPack branch pack start last = .ok r') :
    (ask (.importPack user branch pack start last)).run answer a =
      (.ok (), { a with repositories := a.repositories.insert user r' }) := by
  change answer (.importPack user branch pack start last) a = _
  simp [answer, withRepository_eq hr, himport]

/-- An update of a mailbox that is there. -/
theorem run_ask_updateChannelTip {a : Accounts} {user : String} {m : Mailbox}
    (hm : a.mailboxes.get? user = some m) (branch tip : String) :
    (ask (.updateChannelTip user branch tip)).run answer a =
      (.ok (m.updateChannelTip branch tip).1,
        { a with mailboxes := a.mailboxes.insert user (m.updateChannelTip branch tip).2 }) := by
  change answer (.updateChannelTip user branch tip) a = _
  simp [answer, hm]

/-- A commit of a mailbox that is there. -/
theorem run_ask_commitMailbox {a : Accounts} {user : String} {m : Mailbox}
    (hm : a.mailboxes.get? user = some m) :
    (ask (.commitMailbox user)).run answer a =
      (.ok (), { a with mailboxes := a.mailboxes.insert user m.commit }) := by
  change answer (.commitMailbox user) a = _
  simp [answer, hm]

end BranchSync.Accounts
