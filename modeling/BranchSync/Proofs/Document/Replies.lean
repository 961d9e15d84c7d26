import BranchSync.Proofs.Document.Answering

/-!
# Replies with their outcomes

The answer that goes out for a top-level element is a response. Behind it stands the outcome of the
pull or of the push, which the client does not see: a pull that was degraded hides why, and a push
names the tip that it led to. `Document.replies` keeps both. Its responses are the answers of the
document, so a session that is fed the document queues them and leaves the same storage.
-/

namespace BranchSync

namespace Document

/-- What a pull or a push was answered, with its outcome. -/
inductive Reply where
  | pull (answer : PullAnswer)
  | push (answer : PushAnswer)
  deriving DecidableEq

/-- The response that goes out for a reply. -/
def Reply.response : Reply → Response
  | .pull answer => answer.response
  | .push answer => answer.response

/-- The branch that a request is about: a pull or a push that has its attributes. -/
def target? (head : Element) : Option BranchRef :=
  if head.name = Vocabulary.syncPull then
    (PullRequest.ofElement head).toOption.map PullRequest.target
  else if head.name = Vocabulary.syncPush then
    (PushRequest.ofElement head).toOption.map PushRequest.target
  else none

/-- Answer a top-level element, and keep the outcome. -/
def replyTo (context : SyncContext) (head : Element) (children : List Node) :
    BackendProgram (Except SyncError Reply) :=
  if head.name = Vocabulary.syncPull then do
    let answer ← handlePull context head
    pure (answer.map .pull)
  else if head.name = Vocabulary.syncPush then
    match PushRequest.ofElement head with
    | .error e => pure (.error e)
    | .ok request => do
      let answer ← finalizeWith context request
        (Node.payload? context.policy.maxPayloadSize children)
      pure (.ok (.push answer))
  else pure (.error (.noHandler head.name))

/-- Answer elements in order, and keep the outcomes. -/
def repliesTo (context : SyncContext) (elements : List (Element × List Node)) :
    BackendProgram (List (Except SyncError Reply)) :=
  elements.mapM fun e => replyTo context e.1 e.2

/-- Answer the top-level elements of a document in order, and keep the outcomes. -/
def replies (context : SyncContext) (nodes : List Node) :
    BackendProgram (List (Except SyncError Reply)) :=
  repliesTo context (Node.elements nodes)

/-- The answer to an element is the response of the reply. -/
theorem answerElement_eq (context : SyncContext) (head : Element) (children : List Node) :
    answerElement context head children = (do
      let reply ← replyTo context head children
      pure (reply.map Reply.response)) := by
  unfold answerElement replyTo
  by_cases hpull : head.name = Vocabulary.syncPull
  · rw [if_pos hpull, if_pos hpull, answerPull, bind_assoc]
    congr 1
    funext answer
    cases answer <;> rfl
  · rw [if_neg hpull, if_neg hpull]
    by_cases hpush : head.name = Vocabulary.syncPush
    · rw [if_pos hpush, if_pos hpush, answerPush_eq]
      cases PushRequest.ofElement head with
      | error e => rfl
      | ok request =>
        dsimp only
        rw [bind_assoc]
        rfl
    · rw [if_neg hpush, if_neg hpush]
      rfl

/-- The answers of a document are the responses of its replies. -/
theorem answers_eq (context : SyncContext) (nodes : List Node) :
    answers context nodes = (do
      let replies ← replies context nodes
      pure (replies.map fun reply => reply.map Reply.response)) := by
  unfold answers replies repliesTo
  induction Node.elements nodes with
  | nil => rfl
  | cons e rest ih =>
    rw [List.mapM_cons, List.mapM_cons, ih, answerElement_eq]
    simp only [bind_assoc, pure_bind, List.map_cons]

end Document

/-- Fed a document, a fresh session queues the responses of its replies, reports the first refusal
among them, is idle again and leaves the storage that the replies leave. -/
theorem Session.run_handleEvents_replies {σ : Type} (context : SyncContext) (nodes : List Node)
    (answer : BackendProgram.Handler σ) (storage : σ) :
    ((new context).handleEvents (Node.eventsOf nodes)).run answer storage =
      let replied := (Document.replies context nodes).run answer storage
      (settled context [] (replied.1.map fun reply => reply.map Document.Reply.response),
        replied.2) := by
  have hdocument := handleEvents_eventsOf context [] nodes
  change (new context).handleEvents (Node.eventsOf nodes) = _ at hdocument
  rw [hdocument, Document.answers_eq, bind_assoc, BackendProgram.run_bind]
  rfl

end BranchSync
