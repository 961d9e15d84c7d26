import BranchSync.Proofs.Document.Answering
import BranchSync.Proofs.Session.Closing
import BranchSync.Proofs.Session.Reachable

/-!
# What a push in flight carries

A session counts how deep it is and does not compare names, so a push can be fed by events that no
document would have. What the push carries is still settled by the events alone: by the start tag
that opened it at the top level, and by the texts between the first start tag of a pack directly
below it and the first end tag of a pack that leads back there. Neither the storage nor its replies
have a part in it.
-/

namespace BranchSync

namespace ParseEvent

/-- The depth to which events lead, one after the other. -/
def depthAfter (depth : Nat) (events : List ParseEvent) : Nat :=
  events.foldl leadsTo depth

/-- No event leads to the top level. -/
def StayBelow : Nat → List ParseEvent → Prop
  | _, [] => True
  | depth, event :: rest => 1 ≤ event.leadsTo depth ∧ StayBelow (event.leadsTo depth) rest

/-- The texts at depth two up to the first end tag of a pack that leads from there to depth one, if
there is one. -/
def textUntilPackEnd? : Nat → List ParseEvent → Option String
  | _, [] => none
  | depth, .openTag _ :: rest => textUntilPackEnd? (depth + 1) rest
  | depth, .text content :: rest =>
    if depth = 2 then (textUntilPackEnd? depth rest).map (content ++ ·)
    else textUntilPackEnd? depth rest
  | depth, .closeTag name :: rest =>
    if depth = 2 ∧ name = Vocabulary.pack then some "" else textUntilPackEnd? (depth - 1) rest

/-- The text of the first pack that is opened at depth one, if the pack is closed again. -/
def packText? : Nat → List ParseEvent → Option String
  | _, [] => none
  | depth, .openTag element :: rest =>
    if depth = 1 ∧ element.name = Vocabulary.pack then textUntilPackEnd? 2 rest
    else packText? (depth + 1) rest
  | depth, .text _ :: rest => packText? depth rest
  | depth, .closeTag _ :: rest => packText? (depth - 1) rest

end ParseEvent

open ParseEvent

/-- A push with what became of the text of its pack. -/
def PushRequest.carrying (request : PushRequest) (limit : Option UInt64) :
    Option String → PushRequest × Option ProtocolError
  | none => (request, none)
  | some content =>
    match Collector.outcome limit content.utf8ByteSize content with
    | .ok pack => ({ request with pack := some pack }, none)
    | .error fault => (request, some fault)

/-- The push that events carry, with the fault of its payload: its header opened at the top level
and was not closed since, and its payload is the text of the first pack since then. -/
def Carries (limit : Option UInt64) (events : List ParseEvent)
    (carried : PushRequest × Option ProtocolError) : Prop :=
  ∃ earlier head inside request,
    events = earlier ++ .openTag head :: inside ∧ depthAfter 0 earlier = 0 ∧
      head.name = Vocabulary.syncPush ∧ PushRequest.ofElement head = .ok request ∧
      StayBelow 1 inside ∧ carried = request.carrying limit (packText? 1 inside)

namespace PushExchange

/-- What events below the top level do to the push in flight. -/
def feedAll (push : PushExchange) : Nat → List ParseEvent → PushExchange
  | _, [] => push
  | depth, event :: rest => (push.feed depth event).feedAll (event.leadsTo depth) rest

/-- The push in flight would be run as given. -/
def Holds (push : PushExchange) (carried : PushRequest × Option ProtocolError) : Prop :=
  ∃ collector, push = .awaitingPayload carried.1 collector carried.2

/-- Once the pack is closed, no event changes the push. -/
theorem feedAll_of_done (request : PushRequest) (limit : Option UInt64)
    (fault : Option ProtocolError) (depth : Nat) (events : List ParseEvent) :
    (awaitingPayload request ⟨limit, .done⟩ fault).feedAll depth events =
      .awaitingPayload request ⟨limit, .done⟩ fault := by
  induction events generalizing depth with
  | nil => rfl
  | cons event rest ih =>
    have hkeep : (awaitingPayload request ⟨limit, .done⟩ fault).feed depth event =
        .awaitingPayload request ⟨limit, .done⟩ fault := by
      cases event with
      | openTag element => exact ite_self _
      | text content => exact ite_self _
      | closeTag name => exact ite_self _
    rw [feedAll, hkeep, ih]

/-- While the pack is open, the push is settled by the texts that are still to come. -/
theorem holds_feedAll_of_gathers (request : PushRequest) {collector : Collector Nat}
    {gathered : String} (h : collector.Gathers gathered) (depth : Nat)
    (events : List ParseEvent) :
    ((awaitingPayload request collector none).feedAll depth events).Holds
      (request.carrying collector.limit
        ((textUntilPackEnd? depth events).map (gathered ++ ·))) := by
  induction events generalizing depth collector gathered with
  | nil => exact ⟨collector, rfl⟩
  | cons event rest ih =>
    cases event with
    | openTag element =>
      have hbegin : collector.begin.2 = collector := by
        obtain ⟨seen, stored, hphase, -⟩ := h
        simp [Collector.begin, hphase]
      have hkeep : (awaitingPayload request collector none).feed depth (.openTag element) =
          .awaitingPayload request collector none := by
        simp only [feed, payloadStart, hbegin, ite_self]
      rw [feedAll, hkeep]
      exact ih h (depth + 1)
    | text content =>
      rw [feedAll, feed, textUntilPackEnd?]
      by_cases hdepth : depth = 2
      · rw [if_pos hdepth, if_pos hdepth]
        have hrest := ih (h.pushText (Collector.countable_nat _ (gathered ++ content))) depth
        simp only [Collector.pushText_limit, String.append_assoc] at hrest
        rw [Option.map_map]
        exact hrest
      · rw [if_neg hdepth, if_neg hdepth]
        exact ih h depth
    | closeTag name =>
      rw [feedAll, feed, textUntilPackEnd?]
      by_cases hclose : depth = 2 ∧ name = Vocabulary.pack
      · rw [if_pos hclose, if_pos hclose, Option.map_some, String.append_empty, payloadEnd,
          h.finish, PushRequest.carrying]
        -- the pack is closed, so the outcome of its text is all that remains
        cases Collector.outcome collector.limit gathered.utf8ByteSize gathered with
        | ok pack => exact ⟨⟨collector.limit, .done⟩, feedAll_of_done ..⟩
        | error fault => exact ⟨⟨collector.limit, .done⟩, feedAll_of_done ..⟩
      · rw [if_neg hclose, if_neg hclose]
        exact ih h (depth - 1)

/-- Before the pack is opened, the push is settled by the text of the pack. -/
theorem holds_feedAll_of_idle (request : PushRequest) (limit : Option UInt64) (depth : Nat)
    (events : List ParseEvent) :
    ((awaitingPayload request (.new limit) none).feedAll depth events).Holds
      (request.carrying limit (packText? depth events)) := by
  induction events generalizing depth with
  | nil => exact ⟨.new limit, rfl⟩
  | cons event rest ih =>
    cases event with
    | openTag element =>
      rw [feedAll, feed, packText?]
      by_cases hopen : depth = 1 ∧ element.name = Vocabulary.pack
      · rw [if_pos hopen, if_pos hopen]
        obtain ⟨rfl, -⟩ := hopen
        have hrest := holds_feedAll_of_gathers request (Collector.gathers_begin limit) 2 rest
        simp only [String.empty_append, Option.map_id'] at hrest
        exact hrest
      · rw [if_neg hopen, if_neg hopen]
        exact ih (depth + 1)
    | text content =>
      have hkeep : (awaitingPayload request (.new limit) none).feed depth (.text content) =
          .awaitingPayload request (.new limit) none := ite_self _
      rw [feedAll, hkeep]
      exact ih depth
    | closeTag name =>
      have hkeep : (awaitingPayload request (.new limit) none).feed depth (.closeTag name) =
          .awaitingPayload request (.new limit) none := ite_self _
      rw [feedAll, hkeep]
      exact ih (depth - 1)

end PushExchange

namespace Session

variable {σ : Type}

/-- Events below the top level ask the storage nothing and reach the push in flight. -/
theorem handleEvents_below (context : SyncContext) (responses : List Response) {depth : Nat}
    (push : PushExchange) {events : List ParseEvent} (h : StayBelow depth events) :
    handleEvents ⟨context, depth, some push, responses⟩ events =
      pure (.ok (), ⟨context, depthAfter depth events, some (push.feedAll depth events),
        responses⟩) := by
  induction events generalizing depth push with
  | nil => rfl
  | cons event rest ih =>
    rw [handleEvents_cons_of_pure (handleEvent_below context responses push h.1)]
    exact ih _ h.2

/-- A push comes into flight by a header at the top level. -/
theorem header_of_push_eq_some {s : Session} (hnone : s.push = none) {event : ParseEvent}
    {answer : BackendProgram.Handler σ} {storage : σ} {push : PushExchange}
    (h : ((s.handleEvent event).run answer storage).1.2.push = some push) :
    ∃ head request, event = .openTag head ∧ s.depth = 0 ∧ head.name = Vocabulary.syncPush ∧
      PushRequest.ofElement head = .ok request := by
  cases s.handling event with
  | counted hpush hhandled =>
    rw [hhandled] at h
    cases hnone.symm.trans h
  | fed old hpush hbelow hhandled => cases hnone.symm.trans hpush
  | served element hevent hpush hhandled =>
    rw [hhandled, BackendProgram.run_bind, BackendProgram.run_pure] at h
    cases hnone.symm.trans ((s.pulled_push _).symm.trans h)
  | opened head request hevent hpush hdepth hname hrequest hhandled =>
    exact ⟨head, request, hevent, hdepth, hname, hrequest⟩
  | refused element e hevent hpush hrefusal hhandled =>
    rw [hhandled] at h
    cases hnone.symm.trans h
  | ran request fault hclosing =>
    obtain ⟨-, -, collector, hpush⟩ := closing?_eq_some_iff.mp hclosing
    cases hnone.symm.trans hpush
  | dropped name old e hevent hpush hphase hhandled => cases hnone.symm.trans hpush

/-- A push that is in flight after some events was in flight before them and stayed below the top
level, or its header is among the events, opened at the top level, and what came after it stayed
below. -/
theorem Sound.header_or_stayBelow {s : Session} (hs : s.Sound) {events : List ParseEvent}
    {answer : BackendProgram.Handler σ} {storage : σ} {push : PushExchange}
    (h : ((s.handleEvents events).run answer storage).1.2.push = some push) :
    (s.push ≠ none ∧ StayBelow s.depth events) ∨
    ∃ earlier head inside request, events = earlier ++ .openTag head :: inside ∧
      depthAfter s.depth earlier = 0 ∧
      ((s.handleEvents earlier).run answer storage).1.2.push = none ∧
      head.name = Vocabulary.syncPush ∧ PushRequest.ofElement head = .ok request ∧
      StayBelow 1 inside := by
  induction events generalizing s storage with
  | nil =>
    refine Or.inl ⟨?_, trivial⟩
    rw [show s.push = some push from h]
    exact Option.some_ne_none push
  | cons event rest ih =>
    have hdepth := s.depth_handleEvent event answer storage
    have hsound := hs.handleEvent event answer storage
    rw [run_handleEvents_cons] at h
    rcases ih hsound h with
      ⟨hflight, hbelow⟩ | ⟨earlier, head, inside, request, rfl, htop, hnone, hheader⟩
    · obtain ⟨current, hcurrent⟩ := Option.ne_none_iff_exists'.mp hflight
      rw [hdepth] at hbelow
      cases hpush : s.push with
      | some old =>
        -- a push in flight is below the top level after the event as well
        have hge := (hsound current hcurrent).1
        rw [hdepth] at hge
        exact Or.inl ⟨Option.some_ne_none old, hge, hbelow⟩
      | none =>
        obtain ⟨head, request, rfl, htop, hname, hrequest⟩ := header_of_push_eq_some hpush hcurrent
        rw [htop] at hbelow
        exact Or.inr ⟨[], head, rest, request, rfl, htop, hpush, hname, hrequest, hbelow⟩
    · refine Or.inr ⟨event :: earlier, head, inside, request, rfl, ?_, ?_, hheader⟩
      · rw [hdepth] at htop
        exact htop
      · rw [run_handleEvents_cons]
        exact hnone

/-- Events lead a session to their depth, whatever the storage replies. -/
theorem depth_handleEvents (s : Session) (events : List ParseEvent)
    (answer : BackendProgram.Handler σ) (storage : σ) :
    ((s.handleEvents events).run answer storage).1.2.depth = depthAfter s.depth events := by
  induction events generalizing s storage with
  | nil => rfl
  | cons event rest ih =>
    rw [run_handleEvents_cons]
    simp only
    rw [ih, depth_handleEvent]
    rfl

/-- A session at the top level with nothing in flight is idle. -/
theorem eq_idle {s : Session} (hdepth : s.depth = 0) (hpush : s.push = none) :
    s = idle s.context s.responses := by
  obtain ⟨context, depth, push, responses⟩ := s
  subst hdepth hpush
  rfl

/-- A header and what comes after it below the top level ask the storage nothing, and the push that
they put in flight is the one that they carry. -/
theorem handleEvents_header (context : SyncContext) (responses : List Response) {head : Element}
    {request : PushRequest} {inside : List ParseEvent} (hname : head.name = Vocabulary.syncPush)
    (hrequest : PushRequest.ofElement head = .ok request) (hbelow : StayBelow 1 inside) :
    ∃ push, push.Holds (request.carrying context.policy.maxPayloadSize (packText? 1 inside)) ∧
      (idle context responses).handleEvents (.openTag head :: inside) =
        pure (.ok (), ⟨context, depthAfter 1 inside, some push, responses⟩) := by
  refine ⟨_, PushExchange.holds_feedAll_of_idle request _ 1 inside, ?_⟩
  rw [handleEvents_cons_of_pure (handleEvent_openTag_push context responses hname hrequest)]
  exact handleEvents_below context responses _ hbelow

/-- Whatever the storage replies, a push in flight is the one that the events carry. -/
theorem carries_of_push_eq_some {context : SyncContext} {events : List ParseEvent}
    {answer : BackendProgram.Handler σ} {storage : σ} {push : PushExchange}
    (h : (((new context).handleEvents events).run answer storage).1.2.push = some push) :
    ∃ carried, push.Holds carried ∧ Carries context.policy.maxPayloadSize events carried := by
  have hsound : (new context).Sound := sound_of_push_eq_none rfl
  rcases hsound.header_or_stayBelow h with
    ⟨hflight, -⟩ | ⟨earlier, head, inside, request, rfl, htop, hnone, hname, hrequest, hbelow⟩
  · exact absurd rfl hflight
  · have hdepth := ((new context).depth_handleEvents earlier answer storage).trans htop
    have hidle := eq_idle hdepth hnone
    rw [context_handleEvents] at hidle
    rw [run_handleEvents_append] at h
    simp only at h
    obtain ⟨push', hholds, hpure⟩ := handleEvents_header (new context).context
      (((new context).handleEvents earlier).run answer storage).1.2.responses hname hrequest hbelow
    rw [hidle, hpure] at h
    cases h
    exact ⟨_, hholds, earlier, head, inside, request, rfl, htop, hname, hrequest, hbelow, rfl⟩

end Session

end BranchSync
