import BranchSync.Proofs.Document.Headers
import BranchSync.Proofs.Session.Closing
import BranchSync.Proofs.Session.Queueing
import BranchSync.Proofs.Session.Reachable

/-!
# A session on any input

A client may send end tags that belong to no start tag, give them any name, and take the responses
at any moment. `Session.play` follows a session through such moves and keeps, in a transcript, the
result of every event and every batch of responses that was taken. Whatever the storage replies, no
step of a push comes out of its turn, an event queues at most one response and none when it fails,
and as many end tags as the session is deep bring it back to where a new session is. When the
responses are taken does not show in what is delivered.
-/

namespace BranchSync

/-- A step of a push came when it was not its time. -/
def SyncError.OutOfTurn (e : SyncError) : Prop :=
  e = .alreadyFinalized ∨ ∃ step phase, e = .unexpectedEvent step phase

/-- A malformed request is not a step out of turn. -/
theorem SyncError.not_outOfTurn_malformed (cause : ProtocolError) :
    ¬ (SyncError.malformedRequest cause).OutOfTurn := by
  simp [OutOfTurn]

namespace Session

variable {σ : Type}

/-! ### One event -/

/-- A pull is not refused as a step out of turn. -/
theorem not_outOfTurn_handlePull {context : SyncContext} {element : Element} {e : SyncError}
    (answer : BackendProgram.Handler σ) (storage : σ)
    (h : ((handlePull context element).run answer storage).1 = .error e) : ¬ e.OutOfTurn := by
  unfold handlePull at h
  cases hrequest : PullRequest.ofElement element with
  | error e' =>
    obtain ⟨cause, hcause⟩ := PullRequest.ofElement_eq_error hrequest
    rw [hrequest] at h
    cases h
    rw [hcause]
    exact SyncError.not_outOfTurn_malformed cause
  | ok request =>
    simp only [hrequest] at h
    by_cases haccess : context.principal.canAccess request.target = true
    · rw [if_pos haccess, BackendProgram.run_bind] at h
      split at h
      · rw [BackendProgram.run_bind] at h
        cases h
      · cases h
        simp [SyncError.OutOfTurn]
    · rw [if_neg haccess] at h
      cases h
      simp [SyncError.OutOfTurn]

/-- In a sound session, no event fails because a step of a push came out of turn. -/
theorem Sound.not_outOfTurn {s : Session} (hs : s.Sound) {event : ParseEvent} {e : SyncError}
    (answer : BackendProgram.Handler σ) (storage : σ)
    (h : ((s.handleEvent event).run answer storage).1.1 = .error e) : ¬ e.OutOfTurn := by
  cases s.handling event with
  | counted hpush hhandled =>
    rw [hhandled] at h
    cases h
  | fed push hpush hbelow hhandled =>
    rw [hhandled] at h
    cases h
  | served element hevent hpush hhandled =>
    rw [hhandled, BackendProgram.run_bind, BackendProgram.run_pure] at h
    exact not_outOfTurn_handlePull answer storage (eq_error_of_pulled h)
  | opened head request hevent hpush hdepth hname hrequest hhandled =>
    rw [hhandled] at h
    cases h
  | refused element e' hevent hpush hrefusal hhandled =>
    rw [hhandled] at h
    cases h
    rcases hrefusal with hmalformed | rfl
    · obtain ⟨cause, rfl⟩ := PushRequest.ofElement_eq_error hmalformed
      exact SyncError.not_outOfTurn_malformed cause
    · simp [SyncError.OutOfTurn]
  | ran request fault hclosing =>
    rw [handleEvent_of_closing hclosing, BackendProgram.run_bind] at h
    cases h
  | dropped name push e' hevent hpush hphase hhandled =>
    -- in a sound session, what is in flight awaits its payload
    obtain ⟨-, request, collector, fault, rfl⟩ := hs push hpush
    exact absurd rfl hphase

/-- The outcome of an event adds at most one response to the queue, and none if the event failed. -/
def QueuesOne (s : Session) (outcome : Except SyncError Unit × Session) : Prop :=
  ∃ added, outcome.2.responses = s.responses ++ added ∧ added.length ≤ 1 ∧
    ∀ e, outcome.1 = .error e → added = []

/-- Every event queues at most one response, and none when it fails. -/
theorem queuesOne_handleEvent (s : Session) (event : ParseEvent)
    (answer : BackendProgram.Handler σ) (storage : σ) :
    s.QueuesOne ((s.handleEvent event).run answer storage).1 := by
  rcases s.handleEvent_cases event with
    ⟨result, hpure, hsilent⟩ | ⟨element, hpull⟩ | ⟨request, fault, hclosing⟩
  · rw [hpure]
    exact ⟨[], by simp [hsilent.responses_eq], Nat.zero_le 1, fun _ _ => rfl⟩
  · rw [hpull, BackendProgram.run_bind, BackendProgram.run_pure]
    cases ((handlePull s.context element).run answer storage).1 with
    | ok served => exact ⟨[served.response], rfl, Nat.le_refl 1, fun _ h => by cases h⟩
    | error e => exact ⟨[], (List.append_nil _).symm, Nat.zero_le 1, fun _ _ => rfl⟩
  · rw [handleEvent_of_closing hclosing, BackendProgram.run_bind]
    exact ⟨[_], rfl, Nat.le_refl 1, fun _ h => by cases h⟩

/-- At the top level of a sound session, nothing is in flight. -/
theorem Sound.push_eq_none {s : Session} (hs : s.Sound) (hdepth : s.depth = 0) :
    s.push = none := by
  cases hpush : s.push with
  | none => rfl
  | some push =>
    obtain ⟨hge, -⟩ := hs push hpush
    omega

/-! ### Moves and transcripts -/

/-- What a client does: it sends an event, or it takes the responses that are queued. -/
inductive Move where
  | send (event : ParseEvent)
  | drain
  deriving DecidableEq

/-- The events among the moves of a client. -/
def Move.events : List Move → List ParseEvent
  | [] => []
  | .send event :: rest => event :: events rest
  | .drain :: rest => events rest

/-- What came of the moves of a client: the results of its events, the batches of responses that it
took, and the session that remains. -/
structure Transcript where
  results : List (Except SyncError Unit)
  batches : List (List Response)
  session : Session

/-- All responses in order: those that were taken, and then those that wait. -/
def Transcript.delivered (t : Transcript) : List Response :=
  t.batches.flatten ++ t.session.responses

/-- Follow a session through the moves of its client. -/
def play (s : Session) : List Move → BackendProgram Transcript
  | [] => pure ⟨[], [], s⟩
  | .send event :: rest => do
    let (result, next) ← s.handleEvent event
    let later ← next.play rest
    pure { later with results := result :: later.results }
  | .drain :: rest => do
    let later ← s.drain.2.play rest
    pure { later with batches := s.drain.1 :: later.batches }

/-- One transcript shows what another shows, with earlier responses in front of those delivered; it
may take them in other batches. -/
structure Transcript.Follows (t : Transcript) (earlier : List Response) (other : Transcript) :
    Prop where
  results_eq : t.results = other.results
  delivered_eq : t.delivered = earlier ++ other.delivered
  session_eq : t.session.drain.2 = other.session.drain.2

variable (answer : BackendProgram.Handler σ)

/-- The transcript of an event and the moves after it. -/
theorem run_play_send (s : Session) (event : ParseEvent) (rest : List Move) (storage : σ) :
    (s.play (.send event :: rest)).run answer storage =
      let handled := (s.handleEvent event).run answer storage
      let later := (handled.1.2.play rest).run answer handled.2
      ({ later.1 with results := handled.1.1 :: later.1.results }, later.2) := by
  simp [play]

/-- The transcript of a batch that is taken and the moves after it. -/
theorem run_play_drain (s : Session) (rest : List Move) (storage : σ) :
    (s.play (.drain :: rest)).run answer storage =
      let later := (s.drain.2.play rest).run answer storage
      ({ later.1 with batches := s.responses :: later.1.batches }, later.2) := by
  simp [play, Session.drain]

/-- What is in the queue at the start is delivered first and changes nothing else. -/
theorem follows_play_behind (s : Session) (earlier : List Response) (moves : List Move)
    (storage : σ) :
    let queued := ((s.behind earlier).play moves).run answer storage
    let plain := (s.play moves).run answer storage
    queued.1.Follows earlier plain.1 ∧ queued.2 = plain.2 := by
  induction moves generalizing s storage with
  | nil => exact ⟨⟨rfl, rfl, rfl⟩, rfl⟩
  | cons move rest ih =>
    cases move with
    | send event =>
      simp only [run_play_send, handleEvent_behind, BackendProgram.run_map, outcomeBehind]
      obtain ⟨hfollows, hstorage⟩ := ih ((s.handleEvent event).run answer storage).1.2
        ((s.handleEvent event).run answer storage).2
      refine ⟨⟨?_, hfollows.delivered_eq, hfollows.session_eq⟩, hstorage⟩
      exact congrArg (_ :: ·) hfollows.results_eq
    | drain =>
      -- the same session goes on, and the first batch begins with what was queued before
      simp only [run_play_drain]
      refine ⟨⟨rfl, ?_, rfl⟩, rfl⟩
      simp [Transcript.delivered, behind, Session.drain]

/-- It makes no difference to what is delivered when the responses are taken. -/
theorem follows_play_events (s : Session) (moves : List Move) (storage : σ) :
    let played := (s.play moves).run answer storage
    let plain := (s.play ((Move.events moves).map .send)).run answer storage
    played.1.Follows [] plain.1 ∧ played.2 = plain.2 := by
  induction moves generalizing s storage with
  | nil => exact ⟨⟨rfl, rfl, rfl⟩, rfl⟩
  | cons move rest ih =>
    cases move with
    | send event =>
      simp only [Move.events, List.map_cons, run_play_send]
      obtain ⟨hfollows, hstorage⟩ := ih ((s.handleEvent event).run answer storage).1.2
        ((s.handleEvent event).run answer storage).2
      refine ⟨⟨?_, hfollows.delivered_eq, hfollows.session_eq⟩, hstorage⟩
      exact congrArg (_ :: ·) hfollows.results_eq
    | drain =>
      have hbehind : s.drain.2.behind s.responses = s := by
        simp [Session.drain, behind]
      obtain ⟨htaken, hstorage⟩ := ih s.drain.2 storage
      obtain ⟨hqueued, hstorage'⟩ := follows_play_behind answer s.drain.2 s.responses
        ((Move.events rest).map .send) storage
      rw [hbehind] at hqueued hstorage'
      simp only [Move.events, run_play_drain]
      refine ⟨⟨?_, ?_, ?_⟩, hstorage.trans hstorage'.symm⟩
      · exact htaken.results_eq.trans hqueued.results_eq.symm
      · have htaken' := htaken.delivered_eq
        rw [List.nil_append] at htaken' ⊢
        rw [hqueued.delivered_eq, ← htaken']
        simp [Transcript.delivered]
      · exact htaken.session_eq.trans hqueued.session_eq.symm

/-- The moves of its client take a session to states that it can get into. -/
theorem Reachable.play {s : Session} (h : s.Reachable) (moves : List Move) (storage : σ) :
    ((s.play moves).run answer storage).1.session.Reachable := by
  induction moves generalizing s storage with
  | nil => exact h
  | cons move rest ih =>
    cases move with
    | send event =>
      rw [run_play_send]
      exact ih (h.event answer storage event) _
    | drain =>
      rw [run_play_drain]
      exact ih h.drain storage

/-- Whatever its client does, a session acts for the same principal under the same policy. -/
theorem context_play (s : Session) (moves : List Move) (storage : σ) :
    ((s.play moves).run answer storage).1.session.context = s.context := by
  induction moves generalizing s storage with
  | nil => rfl
  | cons move rest ih =>
    cases move with
    | send event =>
      rw [run_play_send]
      exact (ih _ _).trans (s.context_handleEvent event answer storage)
    | drain =>
      rw [run_play_drain]
      exact ih s.drain.2 storage

/-- In a session that was reached, no step of a push comes out of turn, whatever its client does. -/
theorem Reachable.not_outOfTurn_play {s : Session} (h : s.Reachable) (moves : List Move)
    (storage : σ) {e : SyncError}
    (he : .error e ∈ ((s.play moves).run answer storage).1.results) : ¬ e.OutOfTurn := by
  induction moves generalizing s storage with
  | nil => cases he
  | cons move rest ih =>
    cases move with
    | send event =>
      rw [run_play_send] at he
      rcases List.mem_cons.mp he with hfirst | hrest
      · exact h.sound.not_outOfTurn answer storage hfirst.symm
      · exact ih (h.event answer storage event) _ hrest
    | drain =>
      rw [run_play_drain] at he
      exact ih h.drain storage he

/-- End tags lead up level by level, whatever their names. -/
theorem depth_play_closeTags (s : Session) (names : List String) (storage : σ) :
    ((s.play (names.map fun name => .send (.closeTag name))).run answer storage).1.session.depth =
      s.depth - names.length := by
  induction names generalizing s storage with
  | nil => rfl
  | cons name rest ih =>
    have hdepth : _ = s.depth - 1 := s.depth_handleEvent (.closeTag name) answer storage
    rw [List.map_cons, run_play_send, List.length_cons]
    simp only
    rw [ih, hdepth]
    omega

/-- A session at the top level with nothing in flight goes on as a new one does, with its queue in
front. -/
theorem follows_play_new {s : Session} (hdepth : s.depth = 0) (hpush : s.push = none)
    (moves : List Move) (storage : σ) :
    let resumed := (s.play moves).run answer storage
    let fresh := ((new s.context).play moves).run answer storage
    resumed.1.Follows s.responses fresh.1 ∧ resumed.2 = fresh.2 := by
  obtain ⟨context, depth, push, responses⟩ := s
  subst hdepth hpush
  have hfollows := follows_play_behind answer (new context) responses moves storage
  rw [new, behind_mk, List.append_nil] at hfollows
  exact hfollows

/-- Whatever a client sends and whenever it takes its responses, over any storage: a push is in
flight only below the top level, where it awaits its payload; no step of a push comes out of turn;
an event queues at most one response, and none if it fails; as many end tags as the session is deep
bring it to the top level with nothing in flight, from where it goes on as a new session does; and
what is delivered does not depend on when the responses are taken. -/
theorem play_orderly (context : SyncContext) (storage : σ) (moves : List Move) :
    let played := ((new context).play moves).run answer storage
    let session := played.1.session
    (∀ push, session.push = some push → 1 ≤ session.depth ∧ push.phase = .awaitingPayload) ∧
    (∀ e, .error e ∈ played.1.results → ¬ e.OutOfTurn) ∧
    (∀ event, session.QueuesOne ((session.handleEvent event).run answer played.2).1) ∧
    (∀ names : List String, names.length = session.depth →
      let closed := (session.play (names.map fun name => .send (.closeTag name))).run answer
        played.2
      closed.1.session.depth = 0 ∧ closed.1.session.push = none ∧
        ∀ later,
          let resumed := (closed.1.session.play later).run answer closed.2
          let fresh := ((new context).play later).run answer closed.2
          resumed.1.Follows closed.1.session.responses fresh.1 ∧ resumed.2 = fresh.2) ∧
    (∀ others, Move.events others = Move.events moves →
      let other := ((new context).play others).run answer storage
      other.1.results = played.1.results ∧ other.1.delivered = played.1.delivered ∧
        other.2 = played.2) := by
  intro played session
  have hreachable : session.Reachable := (Reachable.new context).play answer moves storage
  have hcontext : session.context = context := context_play answer (new context) moves storage
  refine ⟨?_, ?_, ?_, ?_, ?_⟩
  · intro push hpush
    obtain ⟨hdepth, request, collector, fault, rfl⟩ := hreachable.sound push hpush
    exact ⟨hdepth, rfl⟩
  · intro e he
    exact (Reachable.new context).not_outOfTurn_play answer moves storage he
  · intro event
    exact session.queuesOne_handleEvent event answer played.2
  · intro names hnames closed
    have hdepth : closed.1.session.depth = 0 := by
      have htop := depth_play_closeTags answer session names played.2
      rw [hnames, Nat.sub_self] at htop
      exact htop
    have hpush : closed.1.session.push = none :=
      (hreachable.play answer _ played.2).sound.push_eq_none hdepth
    refine ⟨hdepth, hpush, ?_⟩
    intro later
    have hsame : closed.1.session.context = context :=
      (context_play answer session _ played.2).trans hcontext
    rw [← hsame]
    exact follows_play_new answer hdepth hpush later closed.2
  · intro others hevents other
    obtain ⟨hother, hstorage⟩ := follows_play_events answer (new context) others storage
    obtain ⟨hplayed, hstorage'⟩ := follows_play_events answer (new context) moves storage
    rw [hevents] at hother hstorage
    refine ⟨?_, ?_, hstorage.trans hstorage'.symm⟩
    · exact hother.results_eq.trans hplayed.results_eq.symm
    · exact hother.delivered_eq.trans hplayed.delivered_eq.symm

/-- A stray end tag, the header of a push, a batch of responses, and a child that is no pack. -/
def strayMoves : List Move :=
  [.send (.closeTag Vocabulary.pack),
    .send (.openTag (.ofAttributes Vocabulary.syncPush [(Vocabulary.branch, "main"),
      (Vocabulary.startCommit, ""), (Vocabulary.lastCommit, ""),
      (Vocabulary.serverUser, "alice")])),
    .drain, .send (.openTag (.ofAttributes "note" []))]

/-- After these moves, two misnamed end tags close the push and leave nothing in flight. -/
theorem strayMoves_recovered :
    let played := ((new ⟨.account "alice", .default⟩).play strayMoves).run Accounts.answer
      (Accounts.empty.addAccount "alice")
    let closed := (played.1.session.play ([Vocabulary.pack, Vocabulary.syncPull].map fun name =>
      .send (.closeTag name))).run Accounts.answer played.2
    played.1.session.push ≠ none ∧ closed.1.session.push = none ∧
      closed.1.session.responses.length = 1 := by
  intro played closed
  have horderly := play_orderly Accounts.answer ⟨.account "alice", .default⟩
    (Accounts.empty.addAccount "alice") strayMoves
  obtain ⟨-, hnone, -⟩ := horderly.2.2.2.1 [Vocabulary.pack, Vocabulary.syncPull] rfl
  exact ⟨by decide, hnone, rfl⟩

end Session

end BranchSync
