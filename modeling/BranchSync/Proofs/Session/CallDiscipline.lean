import BranchSync.Proofs.Identifier.References
import BranchSync.Proofs.Push.Discipline
import BranchSync.Proofs.Session.Atomicity
import BranchSync.Proofs.Session.InFlight

/-!
# The calls of a session

A session calls the storage when it serves a pull and when it runs a push. Nothing is assumed of the
replies here: a storage may answer any call with any value or failure, and answer the same call
differently later. Even so, no account is asked about a branch that the principal may not touch, a
pull only reads, and a push imports what the events carry and keeps to its discipline.
-/

namespace BranchSync

open BackendProgram (log_bind allCalls_pure allCalls_bind allCalls_ask_bind)

/-- An export for a pull only reads, and only the branch that is pulled. -/
theorem PullRequest.allCalls_exportFor (request : PullRequest) (context : SyncContext) :
    (request.exportFor context).AllCalls fun c =>
      c.kind.reads = true ∧ c.Concerns request.target := by
  unfold exportFor
  refine allCalls_ask_bind ⟨rfl, rfl, Or.inr rfl⟩ fun reply => ?_
  rcases reply with e | tip
  · exact allCalls_pure _ _
  · refine allCalls_ask_bind ⟨rfl, rfl, Or.inr rfl⟩ fun reply => ?_
    rcases reply with e | pack
    · exact allCalls_pure _ _
    · exact allCalls_pure _ _

/-- A pull only reads, and only a branch that the principal may touch. -/
theorem allCalls_handlePull (context : SyncContext) (element : Element) :
    (handlePull context element).AllCalls fun c => c.kind.reads = true ∧
      ∃ target, context.principal.canAccess target = true ∧ c.Concerns target := by
  unfold handlePull
  cases PullRequest.ofElement element with
  | error e => exact allCalls_pure _ _
  | ok request =>
    simp only
    by_cases haccess : context.principal.canAccess request.target = true
    · rw [if_pos haccess]
      refine allCalls_ask_bind ⟨rfl, request.target, haccess, rfl, Or.inl rfl⟩ fun found => ?_
      cases found with
      | false => exact allCalls_pure _ _
      | true =>
        refine allCalls_bind ((request.allCalls_exportFor context).mono fun c hc => ?_)
          fun _ => allCalls_pure _ _
        exact ⟨hc.1, request.target, haccess, hc.2⟩
    · rw [if_neg haccess]
      exact allCalls_pure _ _

namespace Session

variable {σ : Type} (answer : BackendProgram.Handler σ)

/-- The calls of an event and of the events before and after it, in order. -/
theorem log_handleEvents_append_cons (s : Session) (before : List ParseEvent) (event : ParseEvent)
    (rest : List ParseEvent) (storage : σ) :
    (s.handleEvents (before ++ event :: rest)).log answer storage =
      let earlier := (s.handleEvents before).run answer storage
      let handled := (earlier.1.2.handleEvent event).run answer earlier.2
      (s.handleEvents before).log answer storage ++
        (earlier.1.2.handleEvent event).log answer earlier.2 ++
          (handled.1.2.handleEvents rest).log answer handled.2 := by
  simp [handleEvents_append, handleEvents, log_bind]

/-- An event that runs no push only reads, and only a branch that the principal may touch. -/
theorem allCalls_handleEvent {s : Session} {event : ParseEvent} (h : s.closing? event = none) :
    (s.handleEvent event).AllCalls fun c => c.kind.reads = true ∧
      ∃ target, s.context.principal.canAccess target = true ∧ c.Concerns target := by
  rcases s.handleEvent_cases event with
    ⟨result, hpure, -⟩ | ⟨element, hpull⟩ | ⟨request, fault, hclosing⟩
  · rw [hpure]
    exact allCalls_pure _ _
  · rw [hpull]
    exact allCalls_bind (allCalls_handlePull s.context element) fun _ => allCalls_pure _ _
  · rw [h] at hclosing
    cases hclosing

/-- An event that runs a push makes the calls of the push. -/
theorem log_of_closing {s : Session} {event : ParseEvent} {request : PushRequest}
    {fault : Option ProtocolError} (h : s.closing? event = some (request, fault)) (storage : σ) :
    (s.handleEvent event).log answer storage =
      (request.finalize s.context fault).log answer storage := by
  rw [handleEvent_of_closing h, log_bind, BackendProgram.log_pure, List.append_nil]

/-- An event that runs a push queues the response to it. -/
theorem responses_of_closing {s : Session} {event : ParseEvent} {request : PushRequest}
    {fault : Option ProtocolError} (h : s.closing? event = some (request, fault)) (storage : σ) :
    ((s.handleEvent event).run answer storage).1.2.responses = s.responses ++
      [((request.finalize s.context fault).run answer storage).1.response] := by
  rw [handleEvent_of_closing h, BackendProgram.run_bind]
  rfl

/-- Whatever a storage replies and whatever events arrive: the calls of a session are those of its
events, one after the other. Each is about a branch that the principal may touch; an event that runs
no push only reads; and an event that runs a push runs the one that the events before it carry,
queues one response, and keeps to the discipline of a push. -/
theorem calls_disciplined (context : SyncContext) (storage : σ) (before : List ParseEvent)
    (event : ParseEvent) (rest : List ParseEvent) :
    let earlier := ((new context).handleEvents before).run answer storage
    let s := earlier.1.2
    let log := (s.handleEvent event).log answer earlier.2
    let handled := (s.handleEvent event).run answer earlier.2
    ((new context).handleEvents (before ++ event :: rest)).log answer storage =
        ((new context).handleEvents before).log answer storage ++ log ++
          (handled.1.2.handleEvents rest).log answer handled.2 ∧
      (∀ x ∈ log, ∃ target, context.principal.canAccess target = true ∧ x.call.Concerns target) ∧
      (s.closing? event = none → ∀ x ∈ log, x.call.kind.reads = true) ∧
      ∀ request fault, s.closing? event = some (request, fault) →
        Carries context.policy.maxPayloadSize before (request, fault) ∧
          ∃ response, handled.1.2.responses = s.responses ++ [response] ∧
            request.Disciplined context.principal log response := by
  intro earlier s log handled
  have hcontext : s.context = context := (new context).context_handleEvents before answer storage
  refine ⟨log_handleEvents_append_cons answer (new context) before event rest storage, ?_, ?_, ?_⟩
  · intro x hx
    cases hclosing : s.closing? event with
    | none =>
      obtain ⟨-, hpermitted⟩ := (allCalls_handleEvent hclosing).of_mem_log hx
      rw [hcontext] at hpermitted
      exact hpermitted
    | some closing =>
      obtain ⟨request, fault⟩ := closing
      rw [show log = _ from log_of_closing answer hclosing earlier.2] at hx
      have hpermitted :=
        (request.finalized_finalize answer s.context fault earlier.2).permitted x hx
      rw [hcontext] at hpermitted
      exact ⟨request.target, hpermitted⟩
  · intro hclosing x hx
    exact ((allCalls_handleEvent hclosing).of_mem_log hx).1
  · intro request fault hclosing
    constructor
    · obtain ⟨-, -, collector, hpush⟩ := closing?_eq_some_iff.mp hclosing
      obtain ⟨carried, ⟨collector', hholds⟩, hcarries⟩ := carries_of_push_eq_some hpush
      cases hholds
      exact hcarries
    · refine ⟨((request.finalize s.context fault).run answer earlier.2).1.response, ?_, ?_⟩
      · exact responses_of_closing answer hclosing earlier.2
      · rw [show log = _ from log_of_closing answer hclosing earlier.2, ← hcontext]
        exact (request.finalized_finalize answer s.context fault earlier.2).disciplined

/-- A storage that keeps nothing and finds everything, but numbers its replies: the tip that it
reports is a new one each time, and nothing that a mailbox was told can be made visible. -/
def forgetful : BackendProgram.Handler UInt8
  | .repository _, n => (true, n + 1)
  | .mailbox _, n => (true, n + 1)
  | .tip _ _, n => (.ok (.commit (.uniform n)), n + 1)
  | .exportPack _ _ _ _ _, n => (.ok [], n + 1)
  | .importPack _ _ _ _ _, n => (.ok (), n + 1)
  | .updateChannelTip _ _ _, n => (.ok true, n + 1)
  | .commitMailbox user, n => (.error (Accounts.noAccount user), n + 1)

/-- Over this storage, the push of a party is accepted with the tip that was read, and the owner of
the branch is told this tip. -/
theorem forgetful_guestPush :
    let opened := ((new guest).handleEvents [.openTag emptyPush]).run forgetful 0
    let closing := opened.1.2.handleEvent (.closeTag Vocabulary.syncPush)
    let request : PushRequest := ⟨⟨"alice", "main"⟩, .tip .empty, .tip .empty, none⟩
    let tip : Tip := .commit (.uniform 2)
    Carries none [.openTag emptyPush] (request, none) ∧
      (closing.run forgetful opened.2).1.2.responses = [(request.accept tip).response] ∧
      ∃ reply, [Exchange.tellTip request.target tip (.ok true), .commit request.target reply] <:+:
        closing.log forgetful opened.2 := by
  intro opened closing request tip
  obtain ⟨-, -, -, hpush⟩ := calls_disciplined forgetful guest 0 [.openTag emptyPush]
    (.closeTag Vocabulary.syncPush) []
  obtain ⟨hcarries, response, hresponses, hdisciplined⟩ := hpush request none rfl
  have hlog : closing.log forgetful opened.2 =
      [.repositoryOf request.target true, .importFor request (.ok ()),
        .tipOf request.target (.ok tip), .mailboxOf request.target true,
        .tellTip request.target tip (.ok true),
        .commit request.target (.error (Accounts.noAccount "alice"))] := rfl
  have hread : [.importFor request (.ok ()), .tipOf request.target (.ok tip)] <:+:
      closing.log forgetful opened.2 := by
    rw [hlog]
    exact ⟨[_], [_, _, _], rfl⟩
  have htold : Exchange.tellTip request.target tip (.ok true) ∈ closing.log forgetful opened.2 := by
    rw [hlog]
    simp
  refine ⟨hcarries, ?_, hdisciplined.committed tip htold⟩
  rw [← hdisciplined.accepted tip hread]
  exact hresponses

end Session

end BranchSync
