import BranchSync.Session

/-!
# Documents and their answers

A well-formed document is a list of nodes: texts, and elements with a name, attributes and an
ordered list of child nodes. `Node.eventsOf` writes it down as parse events in document order.
`Document.answers` says what a document asks for without looking at events: each top-level
element is answered in order, a pull from its attributes alone, a push from its attributes and
its payload, and anything else by a refusal.

The payload of a push is absent without a child named `pack`. Otherwise it is read from the
texts that stand directly in the first such child; other texts, nested elements and later
`pack` children do not matter.
-/

namespace BranchSync

/-- A piece of a well-formed document: a text, or an element with its content. -/
inductive Node where
  | text (content : String)
  | element (head : Element) (children : List Node)

namespace Node

mutual

/-- The parse events of a node in document order. -/
def events : Node → List ParseEvent
  | .text content => [.text content]
  | .element head children => .openTag head :: (eventsOf children ++ [.closeTag head.name])

/-- The parse events of neighbouring nodes in document order. -/
def eventsOf : List Node → List ParseEvent
  | [] => []
  | node :: rest => node.events ++ eventsOf rest

end

/-- The texts among the given nodes; texts inside elements are left out. -/
def texts : List Node → List String
  | [] => []
  | .text content :: rest => content :: texts rest
  | .element _ _ :: rest => texts rest

/-- The elements among the given nodes, each with its content. -/
def elements : List Node → List (Element × List Node)
  | [] => []
  | .text _ :: rest => elements rest
  | .element head children :: rest => (head, children) :: elements rest

/-- The content of the first element named `pack` among the given nodes. -/
def packContent? (nodes : List Node) : Option (List Node) :=
  ((elements nodes).find? fun e => e.1.name = Vocabulary.pack).map Prod.snd

/-- The payload that the children of a push carry: nothing without a pack element, else what the
direct texts of the first one amount to under the size limit. -/
def payload? (limit : Option UInt64) (children : List Node) :
    Option (Except ProtocolError (List UInt8)) :=
  (packContent? children).map fun content =>
    let text := String.join (texts content)
    Collector.outcome limit text.utf8ByteSize text

end Node

namespace Document

/-- Run a push whose payload is absent, readable or faulty. -/
def finalizeWith (context : SyncContext) (request : PushRequest) :
    Option (Except ProtocolError (List UInt8)) → BackendProgram PushAnswer
  | none => request.finalize context none
  | some (.ok pack) => { request with pack := some pack }.finalize context none
  | some (.error fault) => request.finalize context (some fault)

/-- The refusal of an element that lacks an attribute. -/
def malformed (head : Element) (key : String) : Except SyncError Response :=
  .error (.malformedRequest (.missingAttribute head.name key))

/-- Answer a pull from its attributes. -/
def answerPull (context : SyncContext) (head : Element) :
    BackendProgram (Except SyncError Response) := do
  let answer ← handlePull context head
  pure (answer.map PullAnswer.response)

/-- Answer a push from its four attributes and its children; the first missing attribute
refuses it. -/
def answerPush (context : SyncContext) (head : Element) (children : List Node) :
    BackendProgram (Except SyncError Response) :=
  match head.attribute? Vocabulary.branch, head.attribute? Vocabulary.startCommit,
    head.attribute? Vocabulary.lastCommit, head.attribute? Vocabulary.serverUser with
  | none, _, _, _ => pure (malformed head Vocabulary.branch)
  | some _, none, _, _ => pure (malformed head Vocabulary.startCommit)
  | some _, some _, none, _ => pure (malformed head Vocabulary.lastCommit)
  | some _, some _, some _, none => pure (malformed head Vocabulary.serverUser)
  | some branch, some start, some last, some user => do
    let request : PushRequest := ⟨⟨user, branch⟩, .ofText start, .ofText last, none⟩
    let answer ← finalizeWith context request
      (Node.payload? context.policy.maxPayloadSize children)
    pure (.ok answer.response)

/-- Answer a top-level element: by a response, or by the reason for which there is none. -/
def answerElement (context : SyncContext) (head : Element) (children : List Node) :
    BackendProgram (Except SyncError Response) :=
  if head.name = Vocabulary.syncPull then answerPull context head
  else if head.name = Vocabulary.syncPush then answerPush context head children
  else pure (.error (.noHandler head.name))

/-- Answer the top-level elements of a document in order. -/
def answers (context : SyncContext) (nodes : List Node) :
    BackendProgram (List (Except SyncError Response)) :=
  (Node.elements nodes).mapM fun e => answerElement context e.1 e.2

/-- The first answer that is no response, as the result of a whole document. -/
def firstRefusal : List (Except SyncError Response) → Except SyncError Unit
  | [] => .ok ()
  | .error e :: _ => .error e
  | .ok _ :: rest => firstRefusal rest

/-- The answers that are responses, in order. -/
def responses : List (Except SyncError Response) → List Response
  | [] => []
  | .error _ :: rest => responses rest
  | .ok response :: rest => response :: responses rest

/-- A push is read from its header exactly when its four attributes are present, and the first
missing one is named otherwise. -/
theorem answerPush_eq (context : SyncContext) (head : Element) (children : List Node) :
    answerPush context head children =
      match PushRequest.ofElement head with
      | .error e => pure (.error e)
      | .ok request => (do
        let answer ← finalizeWith context request
          (Node.payload? context.policy.maxPayloadSize children)
        pure (.ok answer.response)) := by
  unfold answerPush PushRequest.ofElement Element.require
  cases head.attribute? Vocabulary.branch with
  | none => rfl
  | some branch =>
    cases head.attribute? Vocabulary.startCommit with
    | none => rfl
    | some start =>
      cases head.attribute? Vocabulary.lastCommit with
      | none => rfl
      | some last => cases head.attribute? Vocabulary.serverUser <;> rfl

/-- Every top-level element gets exactly one answer, whatever the backend replies. -/
theorem length_run_answers {σ : Type} (context : SyncContext) (nodes : List Node)
    (answer : BackendProgram.Handler σ) (storage : σ) :
    ((answers context nodes).run answer storage).1.length = (Node.elements nodes).length := by
  unfold answers
  induction Node.elements nodes generalizing storage with
  | nil => rfl
  | cons e rest ih =>
    simp only [List.mapM_cons, BackendProgram.run_bind, BackendProgram.run_pure, List.length_cons,
      ih]

end Document

end BranchSync
