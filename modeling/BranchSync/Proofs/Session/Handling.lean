import BranchSync.Session

/-!
# What an event does to a session

An event is counted, or it reaches the push in flight, or it is a start tag at the top level that is
handled as a pull, opens a push or is refused, or it is an end tag that leads back to the top level
and runs the push in flight. `Handling` names these cases with the program that each of them is;
what holds of every event follows from it, without another look at the tags.
-/

namespace BranchSync

/-- The depth to which an event leads. -/
def ParseEvent.leadsTo (depth : Nat) : ParseEvent → Nat
  | .openTag _ => depth + 1
  | .text _ => depth
  | .closeTag _ => depth - 1

/-- What an event below the top level does to the push in flight. -/
def PushExchange.feed (push : PushExchange) (depth : Nat) : ParseEvent → PushExchange
  | .openTag element =>
    if depth = 1 ∧ element.name = Vocabulary.pack then push.payloadStart.2 else push
  | .text content => if depth = 2 then push.payloadText content else push
  | .closeTag name => if depth = 2 ∧ name = Vocabulary.pack then push.payloadEnd else push

namespace Session

/-- The push that an event runs, with the fault of its payload: the push in flight when an end
tag leads back to the top level. -/
def closing? (s : Session) : ParseEvent → Option (PushRequest × Option ProtocolError)
  | .closeTag _ =>
    match s.push with
    | some (.awaitingPayload request _ fault) => if s.depth ≤ 1 then some (request, fault) else none
    | _ => none
  | _ => none

/-- Only an end tag near the top level runs a push, and it runs the one in flight. -/
theorem closing?_eq_some_iff {s : Session} {event : ParseEvent} {request : PushRequest}
    {fault : Option ProtocolError} :
    s.closing? event = some (request, fault) ↔
      s.depth ≤ 1 ∧ (∃ name, event = .closeTag name) ∧
        ∃ collector, s.push = some (.awaitingPayload request collector fault) := by
  obtain ⟨context, depth, push, responses⟩ := s
  cases event with
  | openTag element => simp [closing?]
  | text content => simp [closing?]
  | closeTag name =>
    cases push with
    | none => simp [closing?]
    | some push =>
      cases push with
      | awaitingPayload request' collector fault' => simp [closing?]
      | awaitingHeader => simp [closing?]
      | finalized => simp [closing?]
      | rejected => simp [closing?]

/-- The session after the push in flight was answered. -/
def closed (s : Session) (response : Response) : Session :=
  { s with depth := 0, push := none, responses := s.responses ++ [response] }

/-- The result of a start tag that is answered as a pull, with the session after it. -/
def pulled (s : Session) : Except SyncError PullAnswer → Except SyncError Unit × Session
  | .ok answer => (.ok (), { s with depth := s.depth + 1 }.enqueue answer.response)
  | .error e => (.error e, { s with depth := s.depth + 1 })

@[simp] theorem pulled_context (s : Session) (result : Except SyncError PullAnswer) :
    (s.pulled result).2.context = s.context := by
  cases result <;> rfl

@[simp] theorem pulled_depth (s : Session) (result : Except SyncError PullAnswer) :
    (s.pulled result).2.depth = s.depth + 1 := by
  cases result <;> rfl

@[simp] theorem pulled_push (s : Session) (result : Except SyncError PullAnswer) :
    (s.pulled result).2.push = s.push := by
  cases result <;> rfl

/-- A start tag that is handled as a pull fails only if the pull does. -/
theorem eq_error_of_pulled {s : Session} {result : Except SyncError PullAnswer} {e : SyncError}
    (h : (s.pulled result).1 = .error e) : result = .error e := by
  cases result with
  | ok answer => cases h
  | error e' =>
    cases h
    rfl

/-! ### One lemma for each case -/

/-- An event that runs a push queues the answer to it, and nothing stays in flight. -/
theorem handleEvent_of_closing {s : Session} {event : ParseEvent} {request : PushRequest}
    {fault : Option ProtocolError} (h : s.closing? event = some (request, fault)) :
    s.handleEvent event = (do
      let answer ← request.finalize s.context fault
      pure (.ok (), s.closed answer.response)) := by
  obtain ⟨hdepth, ⟨name, rfl⟩, collector, hpush⟩ := closing?_eq_some_iff.mp h
  obtain ⟨context, depth, push, responses⟩ := s
  simp only at hdepth hpush
  subst hpush
  have htop : depth - 1 = 0 := by omega
  simp [handleEvent, closeTag, htop, PushExchange.finish, closed, enqueue]

/-- Text reaches the push in flight. -/
theorem text_of_flight (context : SyncContext) (responses : List Response) (depth : Nat)
    (push : PushExchange) (content : String) :
    Session.text ⟨context, depth, some push, responses⟩ content =
      ⟨context, depth, some (push.feed depth (.text content)), responses⟩ := by
  simp only [Session.text, PushExchange.feed]
  split <;> rfl

/-- An event below the top level asks the storage nothing and reaches the push in flight. -/
theorem handleEvent_below (context : SyncContext) (responses : List Response) {depth : Nat}
    (push : PushExchange) {event : ParseEvent} (h : 1 ≤ event.leadsTo depth) :
    handleEvent ⟨context, depth, some push, responses⟩ event =
      pure (.ok (), ⟨context, event.leadsTo depth, some (push.feed depth event), responses⟩) := by
  cases event with
  | openTag element =>
    simp only [handleEvent, openTag, PushExchange.feed, ParseEvent.leadsTo]
    have hdepth : depth + 1 = 2 ↔ depth = 1 := by omega
    simp only [hdepth]
    split <;> rfl
  | text content => simp only [handleEvent, text_of_flight, ParseEvent.leadsTo]
  | closeTag name =>
    have htop : depth - 1 ≠ 0 := Nat.one_le_iff_ne_zero.mp h
    have hdepth : depth - 1 = 1 ↔ depth = 2 := by omega
    simp only [handleEvent, closeTag, PushExchange.feed, ParseEvent.leadsTo]
    simp only [if_neg htop, hdepth]

/-- All that an event can be to a session, with the program that handles it. -/
inductive Handling (s : Session) (event : ParseEvent) : Prop
  /-- Nothing is in flight, and the event is only counted. -/
  | counted (hpush : s.push = none)
      (hhandled : s.handleEvent event = pure (.ok (), { s with depth := event.leadsTo s.depth }))
  /-- The event reaches the push in flight and does not lead from below to the top level. -/
  | fed (push : PushExchange) (hpush : s.push = some push)
      (hbelow : 1 ≤ s.depth → 1 ≤ event.leadsTo s.depth)
      (hhandled : s.handleEvent event =
        pure (.ok (), { s with
          depth := event.leadsTo s.depth, push := some (push.feed s.depth event) }))
  /-- A start tag at the top level is handled as a pull. -/
  | served (element : Element) (hevent : event = .openTag element) (hpush : s.push = none)
      (hhandled : s.handleEvent event = (do
        let result ← handlePull s.context element
        pure (s.pulled result)))
  /-- A start tag at the top level opens a push. -/
  | opened (head : Element) (request : PushRequest) (hevent : event = .openTag head)
      (hpush : s.push = none) (hdepth : s.depth = 0) (hname : head.name = Vocabulary.syncPush)
      (hrequest : PushRequest.ofElement head = .ok request)
      (hhandled : s.handleEvent event =
        pure (.ok (), { s with
          depth := s.depth + 1
          push := some (.awaitingPayload request (.new s.context.policy.maxPayloadSize) none) }))
  /-- A start tag at the top level is refused: its push is malformed, or its name is unknown. -/
  | refused (element : Element) (e : SyncError) (hevent : event = .openTag element)
      (hpush : s.push = none)
      (hrefusal : PushRequest.ofElement element = .error e ∨ e = .noHandler element.name)
      (hhandled : s.handleEvent event = pure (.error e, { s with depth := s.depth + 1 }))
  /-- An end tag leads to the top level and runs the push in flight. -/
  | ran (request : PushRequest) (fault : Option ProtocolError)
      (hclosing : s.closing? event = some (request, fault))
  /-- An end tag leads to the top level, and what is in flight has no payload to await. -/
  | dropped (name : String) (push : PushExchange) (e : SyncError) (hevent : event = .closeTag name)
      (hpush : s.push = some push) (hphase : push.phase ≠ .awaitingPayload)
      (hhandled : s.handleEvent event =
        pure (.error e, { s with depth := event.leadsTo s.depth, push := none }))

/-- A start tag at the top level is handled as a pull, opens a push, or is refused. -/
theorem handling_openTag {s : Session} (hpush : s.push = none) (hdepth : s.depth = 0)
    (element : Element) : s.Handling (.openTag element) := by
  obtain ⟨context, depth, push, responses⟩ := s
  simp only at hpush hdepth
  subst hpush hdepth
  by_cases hpull : element.name = Vocabulary.syncPull
  · refine .served element rfl rfl ?_
    simp only [handleEvent, openTag, dispatch, Nat.zero_add, if_true, if_pos hpull]
    congr 1
    funext result
    cases result <;> rfl
  · by_cases hname : element.name = Vocabulary.syncPush
    · cases hrequest : PushRequest.ofElement element with
      | ok request =>
        refine .opened element request rfl rfl rfl hname hrequest ?_
        simp only [handleEvent, openTag, dispatch, if_neg hpull, if_pos hname,
          PushExchange.header, hrequest, Nat.zero_add, if_true]
      | error e =>
        refine .refused element e rfl rfl (Or.inl hrequest) ?_
        simp only [handleEvent, openTag, dispatch, if_neg hpull, if_pos hname,
          PushExchange.header, hrequest, Nat.zero_add, if_true]
    · refine .refused element (.noHandler element.name) rfl rfl (Or.inr rfl) ?_
      simp only [handleEvent, openTag, dispatch, if_neg hpull, if_neg hname, Nat.zero_add, if_true]

/-- An end tag that leads to the top level runs the push in flight, or drops what is no push that
awaits its payload. -/
theorem handling_closeTag {s : Session} {push : PushExchange} (hpush : s.push = some push)
    (hdepth : s.depth ≤ 1) (name : String) : s.Handling (.closeTag name) := by
  by_cases hphase : push.phase = .awaitingPayload
  · cases push with
    | awaitingPayload request collector fault =>
      exact .ran request fault (closing?_eq_some_iff.mpr ⟨hdepth, ⟨name, rfl⟩, collector, hpush⟩)
    | awaitingHeader => cases hphase
    | finalized => cases hphase
    | rejected => cases hphase
  · obtain ⟨e, hfinish⟩ : ∃ e, (push.finish s.context).1 = pure (.error e) := by
      cases push with
      | awaitingPayload request collector fault => exact absurd rfl hphase
      | awaitingHeader => exact ⟨_, rfl⟩
      | finalized => exact ⟨_, rfl⟩
      | rejected => exact ⟨_, rfl⟩
    refine .dropped name push e rfl hpush hphase ?_
    obtain ⟨context, depth, push', responses⟩ := s
    simp only at hpush hdepth hfinish
    subst hpush
    have htop : depth - 1 = 0 := by omega
    simp [handleEvent, closeTag, ParseEvent.leadsTo, htop, hfinish]

/-- Whatever state a session is in, an event is one of these to it. -/
theorem handling (s : Session) (event : ParseEvent) : s.Handling event := by
  obtain ⟨context, depth, push, responses⟩ := s
  cases push with
  | none =>
    cases event with
    | openTag element =>
      by_cases hdepth : depth = 0
      · exact handling_openTag rfl hdepth element
      · refine .counted rfl ?_
        simp only [handleEvent, openTag, Nat.add_eq_right, if_neg hdepth]
        rfl
    | text content => exact .counted rfl rfl
    | closeTag name => exact .counted rfl rfl
  | some push =>
    cases event with
    | openTag element =>
      have hbelow : 1 ≤ ParseEvent.leadsTo depth (.openTag element) := Nat.le_add_left 1 depth
      exact .fed push rfl (fun _ => hbelow) (handleEvent_below context responses push hbelow)
    | text content =>
      refine .fed push rfl id ?_
      rw [handleEvent, text_of_flight]
      rfl
    | closeTag name =>
      by_cases hbelow : 1 ≤ depth - 1
      · exact .fed push rfl (fun _ => hbelow) (handleEvent_below context responses push hbelow)
      · have hdepth : depth ≤ 1 := by omega
        exact handling_closeTag rfl hdepth name

end Session

end BranchSync
