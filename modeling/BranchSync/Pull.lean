import BranchSync.Backend
import BranchSync.Context
import BranchSync.Payload.Codec
import BranchSync.Stanza.Element
import BranchSync.Stanza.Response
import BranchSync.Stanza.Vocabulary
import BranchSync.SyncError

/-!
# Pulls

A pull names a branch and the tip that the client has, and is answered with the current tip
and the commits between the two. When the export fails, the answer is degraded: an empty tip
and an empty pack, by which the client knows that it has to start over.
-/

namespace BranchSync

/-- What a pull asks for. -/
structure PullRequest where
  target : BranchRef
  base : TipRef
  deriving DecidableEq

/-- How a pull was answered. -/
inductive PullOutcome where
  /-- The export succeeded. -/
  | served (tip : Tip) (packLength : Nat)
  /-- The export failed and the answer is degraded. -/
  | degraded (cause : RepositoryError)
  deriving DecidableEq

/-- The outcome of a pull together with the response that reports it. -/
structure PullAnswer where
  outcome : PullOutcome
  response : Response
  deriving DecidableEq

namespace PullRequest

/-- Read a request; the branch, the account and the base are looked up in this order. -/
def ofElement (element : Element) : Except SyncError PullRequest := do
  let branch ← requireAttribute (element.require Vocabulary.branch)
  let user ← requireAttribute (element.require Vocabulary.serverUser)
  let base ← requireAttribute (element.require Vocabulary.base)
  pure ⟨⟨user, branch⟩, .ofText base⟩

/-- The response to a pull, with the given tip and pack. -/
def respond (request : PullRequest) (tip : Tip) (pack : List UInt8) : Response :=
  .result [
    (((OutStanza.named Vocabulary.syncPull).withAttribute Vocabulary.branch
      request.target.branch).withAttribute Vocabulary.base
      request.base.echoHex).withAttribute Vocabulary.tip tip.toHex,
    (OutStanza.named Vocabulary.pack).withText (Payload.encode pack)]

/-- The answer to a pull whose export succeeded. -/
def serve (request : PullRequest) (tip : Tip) (pack : List UInt8) : PullAnswer :=
  ⟨.served tip pack.length, request.respond tip pack⟩

/-- The answer to a pull whose export failed. -/
def degrade (request : PullRequest) (cause : RepositoryError) : PullAnswer :=
  ⟨.degraded cause, request.respond .empty []⟩

/-- Export what the request asks for, which the principal was found to be allowed. -/
def exportFor (request : PullRequest) (context : SyncContext) : BackendProgram PullAnswer := do
  let user := request.target.user
  let branch := request.target.branch
  match ← BackendProgram.ask (.tip user branch) with
  | .error cause => pure (request.degrade cause)
  | .ok tip =>
    let depth := context.policy.exportDepth
    match ← BackendProgram.ask (.exportPack user branch request.base tip depth) with
    | .error cause => pure (request.degrade cause)
    | .ok pack => pure (request.serve tip pack)

end PullRequest

/-- Handle the start tag of a pull. The storage is not asked before access is granted. -/
def handlePull (context : SyncContext) (element : Element) :
    BackendProgram (Except SyncError PullAnswer) :=
  match PullRequest.ofElement element with
  | .error e => pure (.error e)
  | .ok request =>
    if context.principal.canAccess request.target then do
      if ← BackendProgram.ask (.repository request.target.user) then
        let answer ← request.exportFor context
        pure (.ok answer)
      else pure (.error (.unknownAccount request.target.user))
    else pure (.error (.unauthorized request.target context.principal.label))

end BranchSync
