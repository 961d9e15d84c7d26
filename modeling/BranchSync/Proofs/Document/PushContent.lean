import BranchSync.Proofs.Document.Skipping
import BranchSync.Proofs.Payload.Gathering

/-!
# The content of a push

Below the start tag of a push, a session hands texts and pack elements to the exchange in
flight. The collector of the exchange serves the first pack element only, and while it gathers,
only texts directly in that element reach it. So the children of a push leave the exchange with
the payload that the tree of the document assigns to them.
-/

namespace BranchSync

namespace PushExchange

/-- What a child element of a push does to the exchange. -/
def feedChild (push : PushExchange) (head : Element) (children : List Node) : PushExchange :=
  if head.name = Vocabulary.pack then
    ((Node.texts children).foldl payloadText push.payloadStart.2).payloadEnd
  else (Node.texts children).foldl payloadText push

/-- Where a push stands once all its children were fed to it, given the payload they carry. -/
def ofPayload (request : PushRequest) (limit : Option UInt64) :
    Option (Except ProtocolError (List UInt8)) → PushExchange
  | none => .awaitingPayload request (.new limit) none
  | some (.ok pack) => .awaitingPayload { request with pack := some pack } ⟨limit, .done⟩ none
  | some (.error fault) => .awaitingPayload request ⟨limit, .done⟩ (some fault)

/-- Texts that reach a push in flight go to its collector. -/
theorem foldl_payloadText (request : PushRequest) (collector : Collector Nat)
    (fault : Option ProtocolError) (texts : List String) :
    texts.foldl payloadText (.awaitingPayload request collector fault) =
      .awaitingPayload request (texts.foldl Collector.pushText collector) fault := by
  induction texts generalizing collector with
  | nil => rfl
  | cons text rest ih => exact ih (collector.pushText text)

/-- Before its pack element, a push ignores its other children. -/
theorem feedChild_of_ne (request : PushRequest) (limit : Option UInt64) {head : Element}
    (hname : head.name ≠ Vocabulary.pack) (children : List Node) :
    (ofPayload request limit none).feedChild head children = ofPayload request limit none := by
  unfold feedChild ofPayload
  rw [if_neg hname, foldl_payloadText, Collector.foldl_pushText_of_not_collecting rfl]

/-- The first pack element decides the payload of a push. -/
theorem feedChild_pack (request : PushRequest) (limit : Option UInt64) {head : Element}
    (hname : head.name = Vocabulary.pack) (children : List Node) :
    (ofPayload request limit none).feedChild head children =
      ofPayload request limit (some (Collector.outcome limit
        (String.join (Node.texts children)).utf8ByteSize (String.join (Node.texts children)))) := by
  have hgathered := Collector.finish_foldl_pushText
    (Collector.countable_nat limit (String.join (Node.texts children)))
  unfold feedChild
  rw [if_pos hname]
  simp only [ofPayload, payloadStart]
  rw [foldl_payloadText, payloadEnd, hgathered]
  cases Collector.outcome limit _ (String.join (Node.texts children)) <;> rfl

/-- After its pack element, a push ignores all further children. -/
theorem feedChild_of_done (request : PushRequest) (limit : Option UInt64)
    (fault : Option ProtocolError) (head : Element) (children : List Node) :
    (awaitingPayload request ⟨limit, .done⟩ fault).feedChild head children =
      .awaitingPayload request ⟨limit, .done⟩ fault := by
  have hkeep := Collector.foldl_pushText_of_not_collecting (κ := Nat) (c := ⟨limit, .done⟩) rfl
    (Node.texts children)
  unfold feedChild
  split
  · simp only [payloadStart, Collector.begin]
    rw [foldl_payloadText, hkeep]
    rfl
  · rw [foldl_payloadText, hkeep]

/-- The closing tag runs the request with the payload that the children carried. -/
theorem finish_ofPayload (context : SyncContext) (request : PushRequest) (limit : Option UInt64)
    (payload : Option (Except ProtocolError (List UInt8))) :
    ((ofPayload request limit payload).finish context).1 = (do
      let answer ← Document.finalizeWith context request payload
      pure (.ok answer)) := by
  rcases payload with _ | pack | fault <;> rfl

end PushExchange

namespace Session

variable (context : SyncContext) (responses : List Response)

/-- Directly inside a child of a push, texts reach the exchange and elements are skipped. -/
theorem handleEvents_content (push : PushExchange) (nodes : List Node) :
    handleEvents ⟨context, 2, some push, responses⟩ (Node.eventsOf nodes) =
      pure (.ok (),
        ⟨context, 2, some ((Node.texts nodes).foldl PushExchange.payloadText push), responses⟩) := by
  induction nodes generalizing push with
  | nil => rfl
  | cons node rest ih =>
    cases node with
    | text content =>
      rw [Node.eventsOf, Node.events, List.singleton_append, handleEvents_cons_of_pure rfl]
      exact ih (push.payloadText content)
    | element head children =>
      have hskips : Skips ⟨context, 3, some push, responses⟩ := Or.inr (Nat.le_refl 3)
      have hopen : handleEvent ⟨context, 2, some push, responses⟩ (.openTag head) =
          pure (.ok (), ⟨context, 3, some push, responses⟩) := by
        simp [handleEvent, openTag]
      have hclose : handleEvent ⟨context, 3, some push, responses⟩ (.closeTag head.name) =
          pure (.ok (), ⟨context, 2, some push, responses⟩) := by
        simp [handleEvent, closeTag]
      rw [Node.eventsOf, Node.events, List.cons_append, handleEvents_cons_of_pure hopen,
        List.append_assoc, handleEvents_append_of_pure (hskips.handleEvents_nodes children),
        List.singleton_append, handleEvents_cons_of_pure hclose]
      exact ih push

/-- A child element of a push passes through the exchange as `feedChild` says. -/
theorem handleEvents_child (push : PushExchange) (head : Element) (children : List Node) :
    handleEvents ⟨context, 1, some push, responses⟩ (Node.element head children).events =
      pure (.ok (), ⟨context, 1, some (push.feedChild head children), responses⟩) := by
  unfold PushExchange.feedChild
  by_cases hname : head.name = Vocabulary.pack
  · have hopen : handleEvent ⟨context, 1, some push, responses⟩ (.openTag head) =
        pure (.ok (), ⟨context, 2, some push.payloadStart.2, responses⟩) := by
      simp [handleEvent, openTag, hname]
    rw [Node.events, handleEvents_cons_of_pure hopen,
      handleEvents_append_of_pure (handleEvents_content context responses _ children)]
    simp [handleEvents, handleEvent, closeTag, hname]
  · have hopen : handleEvent ⟨context, 1, some push, responses⟩ (.openTag head) =
        pure (.ok (), ⟨context, 2, some push, responses⟩) := by
      simp [handleEvent, openTag, hname]
    rw [Node.events, handleEvents_cons_of_pure hopen,
      handleEvents_append_of_pure (handleEvents_content context responses _ children)]
    simp [handleEvents, handleEvent, closeTag, hname]

/-- Once its pack element is closed, no child of a push changes it. -/
theorem handleEvents_children_of_done (request : PushRequest) (limit : Option UInt64)
    (fault : Option ProtocolError) (nodes : List Node) :
    handleEvents ⟨context, 1, some (.awaitingPayload request ⟨limit, .done⟩ fault), responses⟩
        (Node.eventsOf nodes) =
      pure (.ok (),
        ⟨context, 1, some (.awaitingPayload request ⟨limit, .done⟩ fault), responses⟩) := by
  induction nodes with
  | nil => rfl
  | cons node rest ih =>
    cases node with
    | text content =>
      rw [Node.eventsOf, Node.events, List.singleton_append, handleEvents_cons_of_pure rfl]
      exact ih
    | element head children =>
      rw [Node.eventsOf, handleEvents_append_of_pure (handleEvents_child ..),
        PushExchange.feedChild_of_done]
      exact ih

/-- The children of a push leave it with the payload that the tree assigns to them. -/
theorem handleEvents_children (request : PushRequest) (limit : Option UInt64)
    (nodes : List Node) :
    handleEvents ⟨context, 1, some (.ofPayload request limit none), responses⟩
        (Node.eventsOf nodes) =
      pure (.ok (), ⟨context, 1,
        some (.ofPayload request limit (Node.payload? limit nodes)), responses⟩) := by
  induction nodes with
  | nil => rfl
  | cons node rest ih =>
    cases node with
    | text content =>
      rw [Node.eventsOf, Node.events, List.singleton_append, handleEvents_cons_of_pure rfl]
      exact ih
    | element head children =>
      rw [Node.eventsOf, handleEvents_append_of_pure (handleEvents_child ..)]
      by_cases hname : head.name = Vocabulary.pack
      · rw [PushExchange.feedChild_pack request limit hname]
        have hpayload : Node.payload? limit (.element head children :: rest) =
            some (Collector.outcome limit (String.join (Node.texts children)).utf8ByteSize
              (String.join (Node.texts children))) := by
          simp [Node.payload?, Node.packContent?, Node.elements, hname]
        rw [hpayload]
        cases Collector.outcome limit (String.join (Node.texts children)).utf8ByteSize
            (String.join (Node.texts children)) with
        | ok pack => exact handleEvents_children_of_done ..
        | error fault => exact handleEvents_children_of_done ..
      · have hpayload : Node.payload? limit (.element head children :: rest) =
            Node.payload? limit rest := by
          simp [Node.payload?, Node.packContent?, Node.elements, hname]
        rw [PushExchange.feedChild_of_ne request limit hname, hpayload]
        exact ih

end Session

end BranchSync
