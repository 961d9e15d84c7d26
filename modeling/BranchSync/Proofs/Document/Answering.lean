import BranchSync.Accounts
import BranchSync.Proofs.Document.PushContent

/-!
# Answering a document

A session keeps only a depth, an exchange in flight and a queue. Fed the events of a document
from the top level, it nevertheless answers as the tree of the document says, whatever the
storage replies: the same calls in the same order, one answer for every top-level element, the
first refusal as the result, and nothing in flight at the end.
-/

namespace BranchSync.Session

variable (context : SyncContext) (responses : List Response)

/-- A session at the top level with nothing in flight. -/
def idle (context : SyncContext) (responses : List Response) : Session :=
  ⟨context, 0, none, responses⟩

/-- An idle session after it has given answers: the first refusal is the result, and the
responses are queued behind those that were there. -/
def settled (context : SyncContext) (responses : List Response)
    (answers : List (Except SyncError Response)) : Except SyncError Unit × Session :=
  (Document.firstRefusal answers, idle context (responses ++ Document.responses answers))

/-- Answers that are given one by one settle as they do together. -/
theorem settled_cons (answer : Except SyncError Response)
    (rest : List (Except SyncError Response)) :
    settled context responses (answer :: rest) =
      (firstError (settled context responses [answer]).1
          (settled context (settled context responses [answer]).2.responses rest).1,
        (settled context (settled context responses [answer]).2.responses rest).2) := by
  cases answer with
  | error e => simp [settled, idle, Document.firstRefusal, Document.responses, firstError]
  | ok response => simp [settled, idle, Document.firstRefusal, Document.responses, firstError]

/-- The content of an element that is answered by its start tag is skipped. -/
theorem handleEvents_element_of_answered {head : Element}
    {program : BackendProgram (Except SyncError Response)}
    (hopen : (idle context responses).handleEvent (.openTag head) = (do
      let answer ← program
      pure ((settled context responses [answer]).1,
        { (settled context responses [answer]).2 with depth := 1 })))
    (children : List Node) :
    (idle context responses).handleEvents (Node.element head children).events = (do
      let answer ← program
      pure (settled context responses [answer])) := by
  rw [Node.events, handleEvents, hopen, bind_assoc]
  congr 1
  funext answer
  have hskips : Skips { (settled context responses [answer]).2 with depth := 1 } :=
    Or.inl ⟨rfl, Nat.le_refl 1⟩
  simp only [pure_bind]
  rw [handleEvents_append_of_pure (hskips.handleEvents_nodes children)]
  simp [handleEvents, handleEvent, closeTag, settled, idle]

/-- A pull is answered by its start tag. -/
theorem handleEvent_openTag_pull {head : Element} (hname : head.name = Vocabulary.syncPull) :
    (idle context responses).handleEvent (.openTag head) = (do
      let answer ← Document.answerPull context head
      pure ((settled context responses [answer]).1,
        { (settled context responses [answer]).2 with depth := 1 })) := by
  simp only [handleEvent, openTag, idle, dispatch, Document.answerPull, bind_assoc, pure_bind]
  rw [if_true, if_pos hname]
  congr 1
  funext answer
  cases answer with
  | error e => simp [settled, idle, Document.firstRefusal, Document.responses, Except.map]
  | ok answer =>
    simp [settled, idle, enqueue, Document.firstRefusal, Document.responses, Except.map]

/-- A pull that gets an answer has its response queued by its start tag. -/
theorem run_handleEvent_pull {σ : Type} {answer : BackendProgram.Handler σ} {storage after : σ}
    {head : Element} {served : PullAnswer} (hname : head.name = Vocabulary.syncPull)
    (hserved : (handlePull context head).run answer storage = (.ok served, after)) :
    ((idle context responses).handleEvent (.openTag head)).run answer storage =
      ((.ok (), ⟨context, 1, none, responses ++ [served.response]⟩), after) := by
  rw [handleEvent_openTag_pull context responses hname]
  simp [Document.answerPull, hserved, settled, idle, Except.map, Document.firstRefusal,
    Document.responses]

/-- A pull that is refused has nothing queued by its start tag. -/
theorem run_handleEvent_pull_error {σ : Type} {answer : BackendProgram.Handler σ}
    {storage after : σ} {head : Element} {e : SyncError} (hname : head.name = Vocabulary.syncPull)
    (hrefused : (handlePull context head).run answer storage = (.error e, after)) :
    ((idle context responses).handleEvent (.openTag head)).run answer storage =
      ((.error e, ⟨context, 1, none, responses⟩), after) := by
  rw [handleEvent_openTag_pull context responses hname]
  simp [Document.answerPull, hrefused, settled, idle, Except.map, Document.firstRefusal,
    Document.responses]

/-- An element that is neither a pull nor a push is refused by its start tag. -/
theorem handleEvent_openTag_unknown {head : Element} (hpull : head.name ≠ Vocabulary.syncPull)
    (hpush : head.name ≠ Vocabulary.syncPush) :
    (idle context responses).handleEvent (.openTag head) = (do
      let answer ← pure (.error (.noHandler head.name))
      pure ((settled context responses [answer]).1,
        { (settled context responses [answer]).2 with depth := 1 })) := by
  simp [handleEvent, openTag, idle, dispatch, hpull, hpush, settled, Document.firstRefusal,
    Document.responses]

/-- A push whose header is malformed is refused by its start tag. -/
theorem handleEvent_openTag_malformed {head : Element} {e : SyncError}
    (hname : head.name = Vocabulary.syncPush) (hheader : PushRequest.ofElement head = .error e) :
    (idle context responses).handleEvent (.openTag head) = (do
      let answer ← pure (.error e)
      pure ((settled context responses [answer]).1,
        { (settled context responses [answer]).2 with depth := 1 })) := by
  have hne : Vocabulary.syncPush ≠ Vocabulary.syncPull := by decide
  simp [handleEvent, openTag, idle, dispatch, PushExchange.header, hname, hne, hheader, settled,
    Document.firstRefusal, Document.responses]

/-- A push with a complete header is put in flight by its start tag. -/
theorem handleEvent_openTag_push {head : Element} {request : PushRequest}
    (hname : head.name = Vocabulary.syncPush)
    (hheader : PushRequest.ofElement head = .ok request) :
    (idle context responses).handleEvent (.openTag head) = pure (.ok (), ⟨context, 1,
      some (.ofPayload request context.policy.maxPayloadSize none), responses⟩) := by
  have hne : Vocabulary.syncPush ≠ Vocabulary.syncPull := by decide
  simp [handleEvent, openTag, idle, dispatch, PushExchange.header, PushExchange.ofPayload,
    hname, hne, hheader]

/-- A push with a complete header is run by its end tag, with the payload of its children. -/
theorem handleEvents_push {head : Element} {request : PushRequest}
    (hname : head.name = Vocabulary.syncPush) (hheader : PushRequest.ofElement head = .ok request)
    (children : List Node) :
    (idle context responses).handleEvents (Node.element head children).events = (do
      let answer ← Document.finalizeWith context request
        (Node.payload? context.policy.maxPayloadSize children)
      pure (settled context responses [.ok answer.response])) := by
  rw [Node.events, handleEvents_cons_of_pure (handleEvent_openTag_push _ _ hname hheader),
    handleEvents_append_of_pure (handleEvents_children context responses request _ children)]
  simp [handleEvents, handleEvent, closeTag, PushExchange.finish_ofPayload, settled, idle, enqueue,
    Document.firstRefusal, Document.responses]

/-- Fed a top-level element, an idle session gives the answer of the tree and is idle again. -/
theorem handleEvents_element (head : Element) (children : List Node) :
    (idle context responses).handleEvents (Node.element head children).events = (do
      let answer ← Document.answerElement context head children
      pure (settled context responses [answer])) := by
  unfold Document.answerElement
  by_cases hpull : head.name = Vocabulary.syncPull
  · rw [if_pos hpull]
    exact handleEvents_element_of_answered _ _ (handleEvent_openTag_pull _ _ hpull) children
  · rw [if_neg hpull]
    by_cases hpush : head.name = Vocabulary.syncPush
    · rw [if_pos hpush, Document.answerPush_eq]
      cases hheader : PushRequest.ofElement head with
      | error e =>
        exact handleEvents_element_of_answered _ _
          (handleEvent_openTag_malformed _ _ hpush hheader) children
      | ok request =>
        rw [handleEvents_push context responses hpush hheader children]
        simp
    · rw [if_neg hpush]
      exact handleEvents_element_of_answered _ _
        (handleEvent_openTag_unknown _ _ hpull hpush) children

/-- Fed a document, an idle session calls the storage exactly as the tree of the document does,
and settles with the answers of the tree. -/
theorem handleEvents_eventsOf (nodes : List Node) :
    (idle context responses).handleEvents (Node.eventsOf nodes) = (do
      let answers ← Document.answers context nodes
      pure (settled context responses answers)) := by
  induction nodes generalizing responses with
  | nil => simp [Node.eventsOf, handleEvents, Document.answers, Node.elements, settled,
      Document.firstRefusal, Document.responses]
  | cons node rest ih =>
    cases node with
    | text content =>
      rw [Node.eventsOf, Node.events, List.singleton_append, handleEvents_cons_of_pure rfl]
      exact ih responses
    | element head children =>
      have hidle (answer : Except SyncError Response) :
          (settled context responses [answer]).2 =
            idle context (settled context responses [answer]).2.responses := rfl
      rw [Node.eventsOf, handleEvents_append, handleEvents_element]
      simp only [Document.answers, Node.elements, List.mapM_cons, bind_assoc, pure_bind]
      congr 1
      funext answer
      rw [hidle, ih]
      simp only [Document.answers, bind_assoc, pure_bind]
      congr 1
      funext answers
      rw [settled_cons context responses answer answers]

/-- Over accounts in memory, feeding a document from the top level gives the result, the
responses and the accounts that its tree gives, with one answer for every top-level element, and
leaves the session idle. -/
theorem run_handleEvents_eventsOf (nodes : List Node) (accounts : Accounts) :
    let answered := (Document.answers context nodes).run Accounts.answer accounts
    ((idle context responses).handleEvents (Node.eventsOf nodes)).run Accounts.answer accounts =
        ((Document.firstRefusal answered.1,
          idle context (responses ++ Document.responses answered.1)), answered.2) ∧
      answered.1.length = (Node.elements nodes).length := by
  refine ⟨?_, Document.length_run_answers context nodes Accounts.answer accounts⟩
  rw [handleEvents_eventsOf, BackendProgram.run_bind]
  rfl

end BranchSync.Session
