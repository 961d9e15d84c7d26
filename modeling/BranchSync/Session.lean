import BranchSync.Pull
import BranchSync.Push.Exchange

/-!
# Sessions

A session follows the parse events of one connection and routes top-level elements: a pull is
served when its start tag arrives, a push is opened by its start tag, fed by its first pack
child and run when its end tag arrives, and any other element is refused. It only counts how
deep it is, so it accepts events that are not balanced. Responses queue up until they are
drained.
-/

namespace BranchSync

/-- The state of one connection. -/
structure Session where
  context : SyncContext
  depth : Nat
  push : Option PushExchange
  responses : List Response
  deriving DecidableEq

namespace Session

/-- A session at the top level with nothing in flight. -/
def new (context : SyncContext) : Session := ⟨context, 0, none, []⟩

/-- Take the responses produced so far, oldest first. -/
def drain (s : Session) : List Response × Session :=
  (s.responses, { s with responses := [] })

/-- Append a response to the queue. -/
def enqueue (s : Session) (response : Response) : Session :=
  { s with responses := s.responses ++ [response] }

/-- Start a top-level element. -/
def dispatch (s : Session) (element : Element) :
    BackendProgram (Except SyncError Unit × Session) :=
  if element.name = Vocabulary.syncPull then do
    match ← handlePull s.context element with
    | .ok answer => pure (.ok (), s.enqueue answer.response)
    | .error e => pure (.error e, s)
  else if element.name = Vocabulary.syncPush then
    match PushExchange.awaitingHeader.header s.context.policy element with
    | (.ok (), push) => pure (.ok (), { s with push := some push })
    | (.error e, _) => pure (.error e, s)
  else pure (.error (.noHandler element.name), s)

/-- A start tag: the pack child of a push opens its payload, a top-level element is
dispatched, and anything else is only counted. -/
def openTag (s : Session) (element : Element) :
    BackendProgram (Except SyncError Unit × Session) :=
  let s := { s with depth := s.depth + 1 }
  match s.push with
  | some push =>
    if s.depth = 2 ∧ element.name = Vocabulary.pack then
      pure (.ok (), { s with push := some push.payloadStart.2 })
    else pure (.ok (), s)
  | none => if s.depth = 1 then s.dispatch element else pure (.ok (), s)

/-- Text: it belongs to the payload if it stands directly in a child of a push. -/
def text (s : Session) (content : String) : Session :=
  match s.push with
  | some push => if s.depth = 2 then { s with push := some (push.payloadText content) } else s
  | none => s

/-- An end tag: it may close the payload of a push, and it runs the push when it leads back to
the top level. -/
def closeTag (s : Session) (name : String) : BackendProgram (Except SyncError Unit × Session) :=
  let s := { s with depth := s.depth - 1 }
  match s.push with
  | none => pure (.ok (), s)
  | some push =>
    let push := if s.depth = 1 ∧ name = Vocabulary.pack then push.payloadEnd else push
    if s.depth = 0 then do
      match ← (push.finish s.context).1 with
      | .ok answer => pure (.ok (), { s with push := none }.enqueue answer.response)
      | .error e => pure (.error e, { s with push := none })
    else pure (.ok (), { s with push := some push })

/-- Feed one parse event. -/
def handleEvent (s : Session) (event : ParseEvent) :
    BackendProgram (Except SyncError Unit × Session) :=
  match event with
  | .openTag element => s.openTag element
  | .text content => pure (.ok (), s.text content)
  | .closeTag name => s.closeTag name

/-- The first of two results that is an error. -/
def firstError : Except SyncError Unit → Except SyncError Unit → Except SyncError Unit
  | .error e, _ => .error e
  | .ok (), later => later

/-- Feed events in order. Every event is consumed, and the first error is reported. -/
def handleEvents (s : Session) : List ParseEvent → BackendProgram (Except SyncError Unit × Session)
  | [] => pure (.ok (), s)
  | event :: rest => do
    let (result, s) ← s.handleEvent event
    let (later, s) ← s.handleEvents rest
    pure (firstError result later, s)

end Session

end BranchSync
