import BranchSync.Proofs.Document.Answering
import BranchSync.Proofs.Document.Headers
import BranchSync.Proofs.Session.Closing
import BranchSync.Proofs.Session.Queueing

/-!
# A push on its way

The events of a push ask the storage nothing until its end tag, so the events of other sessions
can come in between and see nothing of it. Which request the end tag will run is settled by the
start tag and by the texts of the first pack element, whatever else is on the way, and whenever
the client takes its responses.
-/

namespace BranchSync.Session

/-- Fed the given events, a session asks the storage nothing until the last of them, which runs a
request with a usable payload. -/
inductive Delivers (request : PushRequest) : Session → List ParseEvent → Prop
  | last {s : Session} {event : ParseEvent} (h : s.closing? event = some (request, none)) :
      Delivers request s [event]
  | next {s t : Session} {event : ParseEvent} {rest : List ParseEvent}
      (h : s.handleEvent event = pure (.ok (), t)) (hrest : Delivers request t rest) :
      Delivers request s (event :: rest)

variable {request : PushRequest}

/-- Nothing is delivered without an event. -/
theorem Delivers.ne_nil {s : Session} {events : List ParseEvent}
    (h : Delivers request s events) : events ≠ [] := by
  cases h <;> exact List.cons_ne_nil _ _

/-- The event that completes a delivery runs the request. -/
theorem Delivers.closing?_eq {s : Session} {event : ParseEvent}
    (h : Delivers request s [event]) : s.closing? event = some (request, none) := by
  cases h with
  | last h => exact h
  | next _ hrest => exact absurd rfl hrest.ne_nil

/-- An event that does not complete a delivery asks the storage nothing and moves it on. -/
theorem Delivers.handleEvent_eq {s : Session} {event : ParseEvent} {rest : List ParseEvent}
    (h : Delivers request s (event :: rest)) (hrest : rest ≠ []) :
    ∃ t, s.handleEvent event = pure (.ok (), t) ∧ Delivers request t rest := by
  cases h with
  | last _ => exact absurd rfl hrest
  | next h hnext => exact ⟨_, h, hnext⟩

/-- Events that ask the storage nothing can come before a delivery. -/
theorem Delivers.append {s t : Session} {before events : List ParseEvent}
    (hbefore : s.handleEvents before = pure (.ok (), t)) (h : Delivers request t events) :
    Delivers request s (before ++ events) := by
  induction before generalizing s with
  | nil =>
    cases hbefore
    exact h
  | cons event rest ih =>
    obtain ⟨⟨result, u⟩, hfirst, hrest⟩ := BackendProgram.bind_eq_pure_iff.mp hbefore
    obtain ⟨⟨later, v⟩, hlater, hlast⟩ := BackendProgram.bind_eq_pure_iff.mp hrest
    cases result with
    | error e => cases hlast
    | ok done =>
      cases hlast
      exact .next hfirst (ih hlater)

/-- A delivery does not depend on the responses that wait. -/
theorem Delivers.of_behind {s : Session} {earlier : List Response} {events : List ParseEvent}
    (h : Delivers request (s.behind earlier) events) : Delivers request s events := by
  generalize hbehind : s.behind earlier = queued at h
  induction h generalizing s with
  | last h =>
    refine .last ?_
    rw [closing?_eq_some_iff] at h ⊢
    rw [← hbehind] at h
    exact h
  | next h _ ih =>
    rw [← hbehind, handleEvent_behind, map_eq_pure_bind] at h
    obtain ⟨⟨result, t⟩, hfirst, hsame⟩ := BackendProgram.bind_eq_pure_iff.mp h
    cases hsame
    exact .next hfirst (ih rfl)

/-- A client can take its responses while a push is on its way. -/
theorem Delivers.drain {s : Session} {events : List ParseEvent}
    (h : Delivers request s events) : Delivers request s.drain.2 events := by
  have hbehind : s.drain.2.behind s.responses = s := by
    simp [Session.drain, behind]
  rw [← hbehind] at h
  exact h.of_behind

/-- The events of a push with a usable payload deliver its request. -/
theorem delivers_push {context : SyncContext} (responses : List Response) {head : Element}
    {children : List Node} {target : BranchRef} {start last : String} {pack : List UInt8}
    (hhead : head.Pushes target start last)
    (hpayload : Node.payload? context.policy.maxPayloadSize children = some (.ok pack)) :
    Delivers ⟨target, .ofText start, .ofText last, some pack⟩ (idle context responses)
      (Node.element head children).events := by
  have hopen := handleEvent_openTag_push context responses hhead.name_eq hhead.ofElement_eq
  have hchildren := handleEvents_children context responses
    ⟨target, .ofText start, .ofText last, none⟩ context.policy.maxPayloadSize children
  rw [hpayload] at hchildren
  rw [Node.events]
  exact .next hopen (.append hchildren (.last rfl))

/-- What is left of a pull after its start tag, and the push that follows it, deliver the request
of the push. -/
theorem Delivers.after_pull {context : SyncContext} {responses : List Response}
    {events : List ParseEvent} (h : Delivers request (idle context responses) events)
    (children : List Node) (name : String) :
    Delivers request ⟨context, 1, none, responses⟩
      (Node.eventsOf children ++ .closeTag name :: events) := by
  have hskips : Skips ⟨context, 1, none, responses⟩ := Or.inl ⟨rfl, Nat.le_refl 1⟩
  have hclose : handleEvent ⟨context, 1, none, responses⟩ (.closeTag name) =
      pure (.ok (), idle context responses) := rfl
  exact .append (hskips.handleEvents_nodes children) (.next hclose h)

end BranchSync.Session
