import BranchSync.Branch
import BranchSync.Stanza.Error

/-!
# Requests without an answer

The reasons for which a request gets no response of its own. A pull reports every failure
this way. A push does so for a malformed header or a call out of turn; a push that is merely
refused is answered with an error stanza instead.
-/

namespace BranchSync

/-- Where a push is in its life. -/
inductive PushPhase where
  | awaitingHeader
  | awaitingPayload
  | finalized
  | rejected
  deriving DecidableEq, Repr

/-- The name of a phase. -/
def PushPhase.name : PushPhase → String
  | .awaitingHeader => "awaiting-header"
  | .awaitingPayload => "awaiting-payload"
  | .finalized => "finalized"
  | .rejected => "rejected"

/-- The steps of a push that have their time. -/
inductive PushStep where
  | header
  | finish
  deriving DecidableEq, Repr

/-- The name of a step. -/
def PushStep.name : PushStep → String
  | .header => "header"
  | .finish => "finish"

/-- Why a request gets no response. -/
inductive SyncError where
  /-- The request is malformed. -/
  | malformedRequest (cause : ProtocolError)
  /-- The principal, given by its label, may not touch the target. -/
  | unauthorized (target : BranchRef) (principal : String)
  /-- There is no repository for the account. -/
  | unknownAccount (user : String)
  /-- No request has this element name. -/
  | noHandler (name : String)
  /-- The push was answered before. -/
  | alreadyFinalized
  /-- The step does not fit the phase of the push. -/
  | unexpectedEvent (event : PushStep) (phase : PushPhase)
  deriving DecidableEq, Repr

/-- The wording of a failure. -/
def SyncError.message : SyncError → String
  | .malformedRequest cause => s!"malformed request: {cause.message}"
  | .unauthorized target principal => s!"access to {target.display} denied for {principal}"
  | .unknownAccount user => s!"unknown account: {user}"
  | .noHandler name => s!"no handler for <{name}>"
  | .alreadyFinalized => "push already finalized"
  | .unexpectedEvent event phase => s!"unexpected {event.name} while push is {phase.name}"

/-- Read an attribute that a request has to have. -/
def requireAttribute (e : Except ProtocolError String) : Except SyncError String :=
  match e with
  | .ok value => .ok value
  | .error cause => .error (.malformedRequest cause)

end BranchSync
