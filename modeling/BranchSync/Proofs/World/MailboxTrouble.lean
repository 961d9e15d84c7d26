import BranchSync.Proofs.Backend.SharedRepositories
import BranchSync.Proofs.Session.Atomicity
import BranchSync.Proofs.World.Interleaving

/-!
# Trouble with mailboxes does not show

Sessions share a backend that holds repositories and answers for mailboxes as it likes: there may be
none, they may be kept in memory, they may fail or reply anything. A push looks for the mailbox of
the owner after it was applied, and nothing depends on what it finds. So the sessions behave as if
nobody had a mailbox, and two backends with the same repositories cannot be told apart.
-/

namespace BranchSync

open BackendProgram (IgnoresMailboxes KeepsRepositories withoutMailboxes ignoresMailboxes_pure
  ignoresMailboxes_bind ignoresMailboxes_ask ignoresMailboxes_of_notifies beside)

namespace PushRequest

/-- Notifying the owner calls the mailbox only. -/
theorem notifies_notifyOwner (target : BranchRef) (tip : Tip) :
    (notifyOwner target tip).AllCalls fun request => request.kind.notifies = true := by
  refine BackendProgram.allCalls_ask_bind rfl ?_
  intro found
  cases found with
  | false => trivial
  | true =>
    refine BackendProgram.allCalls_ask_bind rfl ?_
    intro changed
    rcases changed with e | changed
    · trivial
    · cases changed with
      | false => trivial
      | true => exact BackendProgram.allCalls_ask_bind rfl fun _ => trivial

/-- The transfer of a push ignores mailboxes. -/
theorem ignoresMailboxes_transfer (request : PushRequest) (principal : Principal) :
    (request.transfer principal).IgnoresMailboxes := by
  apply ignoresMailboxes_bind
  · exact ignoresMailboxes_ask rfl
  · intro imported
    cases imported with
    | error e => exact ignoresMailboxes_pure _
    | ok done =>
      apply ignoresMailboxes_bind
      · exact ignoresMailboxes_ask rfl
      · intro read
        cases read with
        | error e => exact ignoresMailboxes_pure _
        | ok tip =>
          dsimp only
          cases principal.owns request.target.user with
          | true => exact ignoresMailboxes_pure _
          | false =>
            apply ignoresMailboxes_bind
            · exact ignoresMailboxes_of_notifies (notifies_notifyOwner request.target tip)
            · intro told
              exact ignoresMailboxes_pure _

/-- The check of the start of a push ignores mailboxes. -/
theorem ignoresMailboxes_startIsCurrent (request : PushRequest) :
    request.startIsCurrent.IgnoresMailboxes := by
  unfold startIsCurrent
  cases request.start with
  | token text => exact ignoresMailboxes_pure _
  | tip expected =>
    apply ignoresMailboxes_bind
    · exact ignoresMailboxes_ask rfl
    · intro read
      cases read <;> exact ignoresMailboxes_pure _

/-- A push ignores mailboxes. -/
theorem ignoresMailboxes_finalize (request : PushRequest) (context : SyncContext)
    (fault : Option ProtocolError) : (request.finalize context fault).IgnoresMailboxes := by
  have htransfer := request.ignoresMailboxes_transfer context.principal
  unfold finalize
  split
  · apply ignoresMailboxes_bind
    · exact ignoresMailboxes_ask rfl
    · intro found
      cases found with
      | false => exact ignoresMailboxes_pure _
      | true =>
        simp only [if_true]
        split
        · exact ignoresMailboxes_pure _
        · split
          · apply ignoresMailboxes_bind
            · exact request.ignoresMailboxes_startIsCurrent
            · intro current
              cases current with
              | false => exact ignoresMailboxes_pure _
              | true => exact htransfer
          · exact htransfer
  · exact ignoresMailboxes_pure _

end PushRequest

/-- The export for a pull ignores mailboxes. -/
theorem PullRequest.ignoresMailboxes_exportFor (request : PullRequest) (context : SyncContext) :
    (request.exportFor context).IgnoresMailboxes := by
  apply ignoresMailboxes_bind
  · exact ignoresMailboxes_ask rfl
  · intro read
    cases read with
    | error cause => exact ignoresMailboxes_pure _
    | ok tip =>
      apply ignoresMailboxes_bind
      · exact ignoresMailboxes_ask rfl
      · intro exported
        cases exported <;> exact ignoresMailboxes_pure _

/-- A pull ignores mailboxes. -/
theorem ignoresMailboxes_handlePull (context : SyncContext) (element : Element) :
    (handlePull context element).IgnoresMailboxes := by
  unfold handlePull
  cases PullRequest.ofElement element with
  | error e => exact ignoresMailboxes_pure _
  | ok request =>
    dsimp only
    split
    · apply ignoresMailboxes_bind
      · exact ignoresMailboxes_ask rfl
      · intro found
        cases found with
        | false => exact ignoresMailboxes_pure _
        | true =>
          apply ignoresMailboxes_bind
          · exact request.ignoresMailboxes_exportFor context
          · intro answer
            exact ignoresMailboxes_pure _
    · exact ignoresMailboxes_pure _

/-- An event ignores mailboxes, whatever it is to the session. -/
theorem Session.ignoresMailboxes_handleEvent (s : Session) (event : ParseEvent) :
    (s.handleEvent event).IgnoresMailboxes := by
  rcases s.handleEvent_cases event with
    ⟨result, hpure, -⟩ | ⟨element, hpull⟩ | ⟨request, fault, hclosing⟩
  · rw [hpure]
    exact ignoresMailboxes_pure _
  · rw [hpull]
    apply ignoresMailboxes_bind
    · exact ignoresMailboxes_handlePull s.context element
    · intro result
      exact ignoresMailboxes_pure _
  · rw [handleEvent_of_closing hclosing]
    apply ignoresMailboxes_bind
    · exact request.ignoresMailboxes_finalize s.context fault
    · intro answer
      exact ignoresMailboxes_pure _

/-- The element of the pull that an event runs: a start tag at the top level with no push in
flight. -/
def Session.pulling? (s : Session) : ParseEvent → Option Element
  | .openTag element =>
    if s.push = none ∧ s.depth = 0 ∧ element.name = Vocabulary.syncPull then some element else none
  | _ => none

/-- An event that runs a pull is answered as the pull is. -/
theorem Session.handleEvent_of_pulling {s : Session} {event : ParseEvent} {element : Element}
    (h : s.pulling? event = some element) :
    s.handleEvent event = (do
      let result ← handlePull s.context element
      pure (s.pulled result)) := by
  obtain ⟨context, depth, push, responses⟩ := s
  cases event with
  | openTag head =>
    simp only [pulling?, Option.ite_none_right_eq_some, Option.some.injEq] at h
    obtain ⟨⟨rfl, rfl, hname⟩, rfl⟩ := h
    simp only [handleEvent, openTag, dispatch, Nat.zero_add, if_true, if_pos hname]
    congr 1
    funext result
    cases result <;> rfl
  | text content => cases h
  | closeTag name => cases h

namespace World

variable {ι : Type*} {ρ σ τ : Type}

/-- How the push that an event runs ends. -/
def pushOutcome? (answer : BackendProgram.Handler σ) (w : World ι σ) (i : ι) (event : ParseEvent) :
    Option PushOutcome :=
  ((w.sessions i).closing? event).map fun (request, fault) =>
    ((request.finalize (w.sessions i).context fault).run answer w.storage).1.outcome

/-- How the pull that an event runs ends. -/
def pullOutcome? (answer : BackendProgram.Handler σ) (w : World ι σ) (i : ι) (event : ParseEvent) :
    Option (Except SyncError PullOutcome) :=
  ((w.sessions i).pulling? event).map fun element =>
    ((handlePull (w.sessions i).context element).run answer w.storage).1.map (·.outcome)

/-- The world as it is without mailboxes, with what a backend holds of repositories. -/
def seen (view : σ → ρ) (w : World ι σ) : World ι ρ := ⟨view w.storage, w.sessions⟩

variable {repository : BackendProgram.Handler ρ} {answer : BackendProgram.Handler σ} {view : σ → ρ}

/-- A push ends as it does without mailboxes. -/
theorem pushOutcome?_seen (h : KeepsRepositories repository answer view) (w : World ι σ) (i : ι)
    (event : ParseEvent) :
    (w.seen view).pushOutcome? (withoutMailboxes repository) i event =
      w.pushOutcome? answer i event := by
  unfold pushOutcome? seen
  dsimp only
  congr 1
  funext closing
  obtain ⟨request, fault⟩ := closing
  rw [request.ignoresMailboxes_finalize (w.sessions i).context fault h w.storage]

/-- A pull ends as it does without mailboxes. -/
theorem pullOutcome?_seen (h : KeepsRepositories repository answer view) (w : World ι σ) (i : ι)
    (event : ParseEvent) :
    (w.seen view).pullOutcome? (withoutMailboxes repository) i event =
      w.pullOutcome? answer i event := by
  unfold pullOutcome? seen
  dsimp only
  congr 1
  funext element
  rw [ignoresMailboxes_handlePull (w.sessions i).context element h w.storage]

variable [DecidableEq ι]

/-- An event has the result that it has without mailboxes, and leads to the same world but for
them. -/
theorem step_seen (h : KeepsRepositories repository answer view) (w : World ι σ) (i : ι)
    (event : ParseEvent) :
    (w.seen view).step (withoutMailboxes repository) i event =
      ((w.step answer i event).1, (w.step answer i event).2.seen view) := by
  have hhandled := (w.sessions i).ignoresMailboxes_handleEvent event h w.storage
  simp only [step, seen, hhandled]

/-- A run leads to the world that it leads to without mailboxes, but for them. -/
theorem run_seen (h : KeepsRepositories repository answer view) (w : World ι σ)
    (events : List (ι × ParseEvent)) :
    (w.seen view).run (withoutMailboxes repository) events = (w.run answer events).seen view := by
  induction events generalizing w with
  | nil => rfl
  | cons e rest ih =>
    obtain ⟨i, event⟩ := e
    rw [run, run, step_seen h, ih]

/-- Two backends with the same repositories and any mailboxes whatever, or none, cannot be told
apart. However the events of sessions interleave, after every one of them the repositories are the
same over both, every session is in the same state with the same responses in its queue, and
whatever event comes next has the same result and runs a push or a pull with the same outcome. -/
theorem mailboxes_unobservable {answer' : BackendProgram.Handler τ} {view' : τ → ρ}
    (h : KeepsRepositories repository answer view)
    (h' : KeepsRepositories repository answer' view') {w : World ι σ} {w' : World ι τ}
    (hstorage : view w.storage = view' w'.storage) (hsessions : w.sessions = w'.sessions)
    (events : List (ι × ParseEvent)) :
    let ran := w.run answer events
    let ran' := w'.run answer' events
    view ran.storage = view' ran'.storage ∧ ran.sessions = ran'.sessions ∧
      ∀ i event, (ran.step answer i event).1 = (ran'.step answer' i event).1 ∧
        ran.pushOutcome? answer i event = ran'.pushOutcome? answer' i event ∧
        ran.pullOutcome? answer i event = ran'.pullOutcome? answer' i event := by
  intro ran ran'
  have hstart : w.seen view = w'.seen view' := by
    rw [seen, seen, hstorage, hsessions]
  have hseen : ran.seen view = ran'.seen view' := by
    calc
      ran.seen view = (w.seen view).run (withoutMailboxes repository) events :=
        (run_seen h w events).symm
      _ = (w'.seen view').run (withoutMailboxes repository) events := by rw [hstart]
      _ = ran'.seen view' := run_seen h' w' events
  refine ⟨congrArg World.storage hseen, congrArg World.sessions hseen, ?_⟩
  intro i event
  refine ⟨?_, ?_, ?_⟩
  · have hstep := step_seen h ran i event
    rw [hseen, step_seen h' ran' i event] at hstep
    exact (congrArg Prod.fst hstep).symm
  · rw [← pushOutcome?_seen h, ← pushOutcome?_seen h', hseen]
  · rw [← pullOutcome?_seen h, ← pullOutcome?_seen h', hseen]

/-- Mailboxes that are there but fail on every call. -/
def failingMailboxes : BackendProgram.Handler Unit
  | .repository _, s => (false, s)
  | .mailbox _, s => (true, s)
  | .tip user _, s => (.error (Accounts.noAccount user), s)
  | .exportPack user _ _ _ _, s => (.error (Accounts.noAccount user), s)
  | .importPack user _ _ _ _, s => (.error (Accounts.noAccount user), s)
  | .updateChannelTip user _ _, s => (.error (Accounts.noAccount user), s)
  | .commitMailbox user, s => (.error (Accounts.noAccount user), s)

/-- A party with a grant creates a branch. The mailbox of the owner learns of it if it works; the
party is told the same if it fails. -/
theorem failingMailboxes_unnoticed :
    let accounts := Accounts.empty.addAccount "alice"
    let working : World Unit Accounts := ⟨accounts, fun _ => .new Session.guest⟩
    let failing : World Unit (Table Repository × Unit) :=
      ⟨(accounts.repositories, ()), fun _ => .new Session.guest⟩
    let events := [((), .openTag Session.emptyPush), ((), .closeTag Vocabulary.syncPush)]
    let ran := working.run Accounts.answer events
    let ran' := failing.run (beside Accounts.answerRepositories failingMailboxes) events
    ran.storage.mailboxes ≠ accounts.mailboxes ∧ ran.storage.repositories = ran'.storage.1 ∧
      (ran.sessions ()).responses = (ran'.sessions ()).responses := by
  intro accounts working failing events ran ran'
  have hbegin : working.storage.repositories = failing.storage.1 := rfl
  have hsame : working.sessions = failing.sessions := rfl
  obtain ⟨hstorage, hsessions, -⟩ := mailboxes_unobservable Accounts.keepsRepositories_answer
    (BackendProgram.keepsRepositories_beside Accounts.answerRepositories failingMailboxes)
    hbegin hsame events
  exact ⟨by decide, hstorage, congrArg Session.responses (congrFun hsessions ())⟩

end World

end BranchSync
