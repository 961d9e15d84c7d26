import BranchSync.Backend
import BranchSync.Context
import BranchSync.Stanza.Element
import BranchSync.Stanza.Response
import BranchSync.Stanza.Vocabulary
import BranchSync.SyncError

/-!
# Push requests

A push names a branch, the tip it starts from, the tip it leads to, and carries a pack. It is
applied to the storage as a whole or refused with one of three messages. After a push by
anyone but the owner, the owner's mailbox is told the new tip; trouble with the mailbox does
not change the answer.
-/

namespace BranchSync

/-- A push as assembled from its header and its pack. -/
structure PushRequest where
  target : BranchRef
  start : TipRef
  last : TipRef
  pack : Option (List UInt8)
  deriving DecidableEq

/-- Why a push was refused. -/
inductive PushFailure where
  | accessDenied
  | noSuchBranch
  | importFailed
  deriving DecidableEq, Repr

/-- The message by which a refusal is reported to the client. -/
def PushFailure.message : PushFailure → String
  | .accessDenied => Vocabulary.accessDenied
  | .noSuchBranch => Vocabulary.noSuchBranch
  | .importFailed => Vocabulary.importFailed

/-- How a push ended. -/
inductive PushOutcome where
  | applied (tip : Tip)
  | failed (failure : PushFailure)
  deriving DecidableEq

/-- The outcome of a push together with the response that reports it. -/
structure PushAnswer where
  outcome : PushOutcome
  response : Response
  deriving DecidableEq

namespace PushRequest

/-- Read the header of a push; the attributes are looked up in the order branch, start, last,
account. -/
def ofElement (element : Element) : Except SyncError PushRequest := do
  let branch ← requireAttribute (element.require Vocabulary.branch)
  let start ← requireAttribute (element.require Vocabulary.startCommit)
  let last ← requireAttribute (element.require Vocabulary.lastCommit)
  let user ← requireAttribute (element.require Vocabulary.serverUser)
  pure ⟨⟨user, branch⟩, .ofText start, .ofText last, none⟩

/-- The answer to a push that was applied. -/
def accept (request : PushRequest) (tip : Tip) : PushAnswer :=
  ⟨.applied tip,
    .result [((OutStanza.named Vocabulary.syncPush).withAttribute Vocabulary.branch
      request.target.branch).withAttribute Vocabulary.tip tip.toHex]⟩

/-- The answer to a push that was refused. -/
def refuse (failure : PushFailure) : PushAnswer :=
  ⟨.failed failure, .error failure.message⟩

/-- Whether the branch still is where the push starts. A token cannot be compared and passes. -/
def startIsCurrent (request : PushRequest) : BackendProgram Bool :=
  match request.start with
  | .token _ => pure true
  | .tip expected => do
    match ← BackendProgram.ask (.tip request.target.user request.target.branch) with
    | .error _ => pure false
    | .ok current => pure (decide (current = expected))

/-- Tell the owner's mailbox, if there is one, which tip the branch has now. -/
def notifyOwner (target : BranchRef) (tip : Tip) : BackendProgram Unit := do
  if ← BackendProgram.ask (.mailbox target.user) then
    match ← BackendProgram.ask (.updateChannelTip target.user target.branch tip.toHex) with
    | .ok true =>
      let _ ← BackendProgram.ask (.commitMailbox target.user)
      pure ()
    | _ => pure ()

/-- Apply the pack, read the new tip, and notify the owner if someone else pushed. -/
def transfer (request : PushRequest) (principal : Principal) : BackendProgram PushAnswer := do
  let user := request.target.user
  let branch := request.target.branch
  let pack := request.pack.getD []
  match ← BackendProgram.ask (.importPack user branch pack request.start request.last) with
  | .error _ => pure (refuse .importFailed)
  | .ok () =>
    match ← BackendProgram.ask (.tip user branch) with
    | .error _ => pure (refuse .importFailed)
    | .ok tip =>
      if principal.owns user then pure (request.accept tip)
      else do
        notifyOwner request.target tip
        pure (request.accept tip)

/-- Run a push. Access, existence of the account, a usable payload and, if the policy says so,
the start tip are checked in this order before anything is applied. -/
def finalize (request : PushRequest) (context : SyncContext)
    (payloadError : Option ProtocolError) : BackendProgram PushAnswer :=
  if context.principal.canAccess request.target then do
    if ← BackendProgram.ask (.repository request.target.user) then
      if payloadError.isSome then pure (refuse .importFailed)
      else if context.policy.verifyStartTip then do
        if ← request.startIsCurrent then request.transfer context.principal
        else pure (refuse .importFailed)
      else request.transfer context.principal
    else pure (refuse .noSuchBranch)
  else pure (refuse .accessDenied)

end PushRequest

end BranchSync
