import BranchSync.Backend
import BranchSync.Branch
import BranchSync.Mailbox

/-!
# Accounts held in memory

The accounts of a server that keeps everything in memory: a repository per account and, for
most, a mailbox. They answer every backend call, each call at once, and a refused call
changes nothing.
-/

namespace BranchSync

/-- Repositories and mailboxes by account. -/
structure Accounts where
  repositories : Table Repository
  mailboxes : Table Mailbox
  deriving DecidableEq

namespace Accounts

/-- No accounts. -/
def empty : Accounts := ⟨.empty, .empty⟩

/-- A server starts out without accounts. -/
instance : Inhabited Accounts := ⟨empty⟩

/-- Register an empty repository for an account, replacing the one it has. -/
def addRepository (a : Accounts) (user : String) : Accounts :=
  { a with repositories := a.repositories.insert user .empty }

/-- Register an account with an empty repository and an empty mailbox. -/
def addAccount (a : Accounts) (user : String) : Accounts :=
  { a.addRepository user with mailboxes := a.mailboxes.insert user .empty }

/-- The history of a branch of an account; empty if there is no such repository. -/
def history (a : Accounts) (target : BranchRef) : List CommitId :=
  ((a.repositories.get? target.user).map fun r => r.history target.branch).getD []

/-- Replace the history of a branch of an account that has a repository. -/
def setHistory (a : Accounts) (target : BranchRef) (history : List CommitId) : Accounts :=
  match a.repositories.get? target.user with
  | none => a
  | some r =>
    { a with repositories := a.repositories.insert target.user (r.setHistory target.branch history) }

/-- The refusal of a call for an account that is not there. -/
def noAccount (user : String) : RepositoryError :=
  .backend s!"no account {user}"

/-- Ask the repository of an account. -/
def withRepository {α : Type} (a : Accounts) (user : String)
    (f : Repository → Except RepositoryError α) : Except RepositoryError α :=
  match a.repositories.get? user with
  | none => .error (noAccount user)
  | some r => f r

/-- Answer a backend call. -/
def answer : BackendProgram.Handler Accounts
  | .repository user, a => ((a.repositories.get? user).isSome, a)
  | .mailbox user, a => ((a.mailboxes.get? user).isSome, a)
  | .tip user branch, a => (a.withRepository user fun r => .ok (r.tip branch), a)
  | .exportPack user branch base target depth, a =>
    (a.withRepository user fun r => r.exportPack branch base target depth, a)
  | .importPack user branch pack start last, a =>
    match a.withRepository user fun r => r.importPack branch pack start last with
    | .error e => (.error e, a)
    | .ok r => (.ok (), { a with repositories := a.repositories.insert user r })
  | .updateChannelTip user branch tip, a =>
    match a.mailboxes.get? user with
    | none => (.error (noAccount user), a)
    | some m =>
      let (changed, m) := m.updateChannelTip branch tip
      (.ok changed, { a with mailboxes := a.mailboxes.insert user m })
  | .commitMailbox user, a =>
    match a.mailboxes.get? user with
    | none => (.error (noAccount user), a)
    | some m => (.ok (), { a with mailboxes := a.mailboxes.insert user m.commit })

end Accounts

end BranchSync
