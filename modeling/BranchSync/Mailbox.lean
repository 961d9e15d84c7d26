import BranchSync.Table

/-!
# Mailboxes

A mailbox tells the owner of an account which tip each branch has. Updates gather as pending
values and become visible all together on a commit. Every call is recorded, oldest first, so
both tables can be recomputed from the record.
-/

namespace BranchSync

/-- A call that a mailbox has answered. -/
inductive MailboxEvent where
  | channelTip (branch tip : String)
  | commit
  deriving DecidableEq, Repr

/-- One tip per branch, in the wire form, with the record of calls. -/
structure Mailbox where
  pending : Table String
  committed : Table String
  events : List MailboxEvent
  deriving DecidableEq

namespace Mailbox

/-- A mailbox that was never called. -/
def empty : Mailbox := ⟨.empty, .empty, []⟩

/-- A mailbox starts out empty. -/
instance : Inhabited Mailbox := ⟨empty⟩

/-- The committed tip of a branch. -/
def channelTip (m : Mailbox) (branch : String) : Option String :=
  m.committed.get? branch

/-- Record a pending tip; the answer tells whether it differs from the pending one so far. -/
def updateChannelTip (m : Mailbox) (branch tip : String) : Bool × Mailbox :=
  (m.pending.get? branch != some tip,
    { m with
      pending := m.pending.insert branch tip
      events := m.events ++ [.channelTip branch tip] })

/-- Make all pending tips visible. -/
def commit (m : Mailbox) : Mailbox :=
  { m with committed := m.pending, events := m.events ++ [.commit] }

end Mailbox

end BranchSync
