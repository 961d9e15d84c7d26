import BranchSync.Payload.Collector
import BranchSync.Push.Request

/-!
# The course of a push

A push arrives as a header, a pack element and a closing tag. `PushExchange` follows it: the
header moves it from waiting for the header to waiting for the payload, or rejects it; the
closing tag runs the request and finalizes the exchange. Nothing leaves the last two phases,
and a step out of turn leaves the exchange as it was. The payload is text of a document that is in
memory, so its octets are counted in natural numbers.
-/

namespace BranchSync

/-- One push from its header to its answer. -/
inductive PushExchange where
  | awaitingHeader
  | awaitingPayload (request : PushRequest) (collector : Collector Nat)
      (payloadError : Option ProtocolError)
  | finalized
  | rejected
  deriving DecidableEq

namespace PushExchange

/-- The phase that an exchange is in. -/
def phase : PushExchange → PushPhase
  | .awaitingHeader => .awaitingHeader
  | .awaitingPayload _ _ _ => .awaitingPayload
  | .finalized => .finalized
  | .rejected => .rejected

/-- The request while its payload is awaited. -/
def request? : PushExchange → Option PushRequest
  | .awaitingPayload request _ _ => some request
  | _ => none

/-- The header arrives. -/
def header (policy : SyncPolicy) (exchange : PushExchange) (element : Element) :
    Except SyncError Unit × PushExchange :=
  match exchange with
  | .awaitingHeader =>
    match PushRequest.ofElement element with
    | .ok request => (.ok (), .awaitingPayload request (.new policy.maxPayloadSize) none)
    | .error e => (.error e, .rejected)
  | other => (.error (.unexpectedEvent .header other.phase), other)

/-- A pack element opens; the answer tells whether its text will be gathered. -/
def payloadStart : PushExchange → Bool × PushExchange
  | .awaitingPayload request collector payloadError =>
    (collector.begin.1, .awaitingPayload request collector.begin.2 payloadError)
  | other => (false, other)

/-- Text of a pack element arrives. -/
def payloadText (exchange : PushExchange) (text : String) : PushExchange :=
  match exchange with
  | .awaitingPayload request collector payloadError =>
    .awaitingPayload request (collector.pushText text) payloadError
  | other => other

/-- A pack element closes: its octets become the pack, or its fault is remembered. -/
def payloadEnd : PushExchange → PushExchange
  | .awaitingPayload request collector payloadError =>
    match collector.finish with
    | (some (.ok pack), collector) =>
      .awaitingPayload { request with pack := some pack } collector payloadError
    | (some (.error e), collector) => .awaitingPayload request collector (some e)
    | (none, collector) => .awaitingPayload request collector payloadError
  | other => other

/-- The push closes. The first closing after a header runs the request and yields the one
answer; the exchange that remains does not depend on what the storage replies. -/
def finish (context : SyncContext) :
    PushExchange → BackendProgram (Except SyncError PushAnswer) × PushExchange
  | .awaitingPayload request _ payloadError =>
    (do
      let answer ← request.finalize context payloadError
      pure (.ok answer), .finalized)
  | .finalized => (pure (.error .alreadyFinalized), .finalized)
  | other => (pure (.error (.unexpectedEvent .finish other.phase)), other)

end PushExchange

end BranchSync
