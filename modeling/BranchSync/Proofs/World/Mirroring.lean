import BranchSync.Proofs.Identifier.References
import BranchSync.Proofs.Payload.Transfer
import BranchSync.Proofs.Repository.Copying
import BranchSync.Proofs.Session.Delivery
import BranchSync.Proofs.World.Interleaving
import Mathlib.Logic.Relation

/-!
# Mirroring a branch

A mirror keeps a copy of a branch. In each round it pulls the source from the tip of the copy, and
pushes to the copy what the response carried, with the texts of the pack cut and padded with blanks
as the transport likes. Other sessions may push to the source at any time, also while a round is
under way, as long as no commit enters the source twice; nobody else changes the copy. Then every
pull is served, every push is applied, and after it the copy is what the source was at the pull.

The invariant is that the copy is a prefix of the source. While a push is on its way, it is also a
prefix of the history that was pulled, which is still a prefix of the source.
-/

namespace BranchSync

namespace Response

/-- The tip that a response to a pull reports. -/
def pulledTip? (response : Response) : Option String :=
  (response.child? Vocabulary.syncPull).bind fun stanza => stanza.attribute? Vocabulary.tip

/-- The text of the pack in a response to a pull. -/
def pulledPack? (response : Response) : Option String :=
  (response.child? Vocabulary.pack).bind OutStanza.text

/-- The response to a pull reports the tip. -/
theorem pulledTip?_respond (request : PullRequest) (tip : Tip) (pack : List UInt8) :
    (request.respond tip pack).pulledTip? = some tip.toHex := rfl

/-- The response to a pull carries the pack. -/
theorem pulledPack?_respond (request : PullRequest) (tip : Tip) (pack : List UInt8) :
    (request.respond tip pack).pulledPack? = some (Payload.encode pack) := rfl

end Response

/-- A session that copies one branch to another, with access to both and without limits. -/
structure Mirror (ι : Type*) where
  session : ι
  context : SyncContext
  source : BranchRef
  copy : BranchRef
  source_ne_copy : source ≠ copy
  reads : context.principal.canAccess source = true
  writes : context.principal.canAccess copy = true
  unbounded : context.policy.exportDepth = .unbounded
  unlimited : context.policy.maxPayloadSize = none

namespace Mirror

variable {ι : Type*}

/-- Where a mirror is in its work. -/
inductive Phase where
  /-- Between two rounds. -/
  | resting
  /-- In a round that pulled the given history, with the events that it has yet to send. -/
  | busy (copied : List CommitId) (events : List ParseEvent)

/-- The tip of the copy as the mirror names it. -/
def base (m : Mirror ι) (w : World ι Accounts) : String :=
  (Tip.ofHistory (w.storage.history m.copy)).toHex

/-- A push to the copy that carries what a response to a pull from a base carried, with the pack
cut into texts and padded with blanks in any way. -/
structure Relays (m : Mirror ι) (base : String) (response : Response) (head : Element)
    (children : List Node) : Prop where
  header : ∃ tip, response.pulledTip? = some tip ∧ head.Pushes m.copy base tip
  payload : ∃ content, Node.packContent? children = some content ∧
    response.pulledPack? = some (Text.withoutBlanks (String.join (Node.texts content)))

/-- A move of the sessions of a world. Sessions other than the mirror do as they like, but they do
not change the copy, and no commit enters the source twice. Clients take their responses at any
time. The mirror starts a round with a pull from the tip of the copy and goes on, event by event,
to the end of the push by which it relays the response. -/
inductive Step [DecidableEq ι] (m : Mirror ι) :
    World ι Accounts × Phase → World ι Accounts × Phase → Prop
  | other {w : World ι Accounts} {phase : Phase} {i : ι} {event : ParseEvent}
      (hother : i ≠ m.session)
      (hcopy : (w.step Accounts.answer i event).2.storage.history m.copy =
        w.storage.history m.copy)
      (hsource : ((w.step Accounts.answer i event).2.storage.history m.source).Nodup) :
      Step m (w, phase) ((w.step Accounts.answer i event).2, phase)
  | drain {w : World ι Accounts} {phase : Phase} (i : ι) : Step m (w, phase) (w.drain i, phase)
  | pull {w : World ι Accounts} {element head : Element} {inner children : List Node}
      {response : Response} (hpull : element.Pulls m.source (m.base w))
      (hresponse : ((w.step Accounts.answer m.session (.openTag element)).2.sessions
        m.session).responses = (w.sessions m.session).responses ++ [response])
      (hrelay : m.Relays (m.base w) response head children) :
      Step m (w, .resting) ((w.step Accounts.answer m.session (.openTag element)).2,
        .busy (w.storage.history m.source)
          (Node.eventsOf inner ++ .closeTag element.name :: (Node.element head children).events))
  | send {w : World ι Accounts} {copied : List CommitId} {event : ParseEvent}
      {rest : List ParseEvent} (hrest : rest ≠ []) :
      Step m (w, .busy copied (event :: rest))
        ((w.step Accounts.answer m.session event).2, .busy copied rest)
  | finish {w : World ι Accounts} {copied : List CommitId} {event : ParseEvent} :
      Step m (w, .busy copied [event]) ((w.step Accounts.answer m.session event).2, .resting)

/-- Both accounts exist, and the copy is a prefix of the source, which repeats nothing. -/
structure InStep (m : Mirror ι) (a : Accounts) : Prop where
  source_known : (a.repositories.get? m.source.user).isSome = true
  copy_known : (a.repositories.get? m.copy.user).isSome = true
  source_nodup : (a.history m.source).Nodup
  copy_isPrefix : a.history m.copy <+: a.history m.source

/-- The push that completes the copy of a history. -/
def completion (m : Mirror ι) (a : Accounts) (copied : List CommitId) : PushRequest :=
  ⟨m.copy, .tip (.ofHistory (a.history m.copy)), .tip (.ofHistory copied),
    some (Pack.encode (copied.drop (a.history m.copy).length))⟩

/-- The mirror is about to complete the copy of a history, which the source still begins with. -/
structure Completing (m : Mirror ι) (w : World ι Accounts) (copied : List CommitId)
    (events : List ParseEvent) : Prop where
  context_eq : (w.sessions m.session).context = m.context
  copied_nodup : copied.Nodup
  copy_isPrefix : w.storage.history m.copy <+: copied
  isPrefix_source : copied <+: w.storage.history m.source
  delivers : (w.sessions m.session).Delivers (m.completion w.storage copied) events

/-- What holds between the moves of a run: between rounds, the session of the mirror is idle, and
during a round it is about to complete the copy. -/
def Sound (m : Mirror ι) : World ι Accounts × Phase → Prop
  | (w, .resting) =>
    m.InStep w.storage ∧ ∃ responses, w.sessions m.session = .idle m.context responses
  | (w, .busy copied events) => m.InStep w.storage ∧ m.Completing w copied events

variable {m : Mirror ι} {w : World ι Accounts}

/-- A push that relays a response delivers the pack of the response, from the base to the tip that
was reported. -/
theorem Relays.delivers {base tip : Tip} {request : PullRequest} {pack : List UInt8}
    {head : Element} {children : List Node}
    (h : m.Relays base.toHex (request.respond tip pack) head children)
    (responses : List Response) :
    Session.Delivers ⟨m.copy, .tip base, .tip tip, some pack⟩ (.idle m.context responses)
      (Node.element head children).events := by
  obtain ⟨⟨text, htip, hhead⟩, content, hcontent, hpack⟩ := h
  rw [Response.pulledTip?_respond] at htip
  rw [Response.pulledPack?_respond] at hpack
  have hdecode := Payload.decode_of_withoutBlanks (Option.some.inj hpack).symm
  have hpayload : Node.payload? m.context.policy.maxPayloadSize children = some (.ok pack) := by
    simp only [Node.payload?, hcontent, Option.map_some, m.unlimited, Collector.outcome, hdecode]
  have hdelivers := Session.delivers_push responses hhead hpayload
  rw [← Option.some.inj htip, TipRef.ofText_toHex, TipRef.ofText_toHex] at hdelivers
  exact hdelivers

/-- A pull from the tip of the copy is served with what the copy lacks. -/
theorem InStep.run_handlePull {a : Accounts} (h : m.InStep a) {element : Element}
    (hpull : element.Pulls m.source (Tip.ofHistory (a.history m.copy)).toHex) :
    (handlePull m.context element).run Accounts.answer a =
      (.ok (PullRequest.serve ⟨m.source, .tip (.ofHistory (a.history m.copy))⟩
        (.ofHistory (a.history m.source))
        (Pack.encode ((a.history m.source).drop (a.history m.copy).length))), a) := by
  have hexport := Repository.exportCommits_of_isPrefix h.source_nodup h.copy_isPrefix
    m.source.branch
  rw [BranchSync.run_handlePull, hpull.ofElement_eq, TipRef.ofText_toHex]
  simp only [m.reads, if_true, h.source_known, m.unbounded, PullRequest.answerFrom, hexport]

/-- The push that completes the copy is applied and leaves the whole history behind. -/
theorem run_finalize_completion {a : Accounts} {copied : List CommitId}
    (hknown : (a.repositories.get? m.copy.user).isSome = true) (hnodup : copied.Nodup)
    (hbegins : a.history m.copy <+: copied) :
    ∃ r, a.repositories.get? m.copy.user = some r ∧
      ((m.completion a copied).finalize m.context none).run Accounts.answer a =
        ((m.completion a copied).accept (.ofHistory copied),
          a.afterPush m.context.principal m.copy (r.setHistory m.copy.branch copied)) := by
  obtain ⟨r, hr⟩ := Option.isSome_iff_exists.mp hknown
  have hhistory : a.history m.copy = r.history m.copy.branch := Accounts.history_eq hr
  have himport : r.importPack m.copy.branch ((m.completion a copied).pack.getD [])
      (m.completion a copied).start (m.completion a copied).last =
        .ok (r.setHistory m.copy.branch copied) := by
    rw [hhistory] at hbegins
    simp only [completion, hhistory, Option.getD_some]
    exact Repository.importPack_of_isPrefix hnodup hbegins
  refine ⟨r, hr, ?_⟩
  rw [PushRequest.run_finalize_of_import m.writes hr himport]
  simp only [completion, Repository.tip_setHistory]

/-- A completion goes on where the storage is the same and the session of the mirror still delivers
the push. -/
theorem Completing.go_on {copied : List CommitId} {events rest : List ParseEvent}
    (h : m.Completing w copied events) {after : World ι Accounts}
    (hstorage : after.storage = w.storage)
    (hcontext : (after.sessions m.session).context = m.context)
    (hdelivers : (after.sessions m.session).Delivers (m.completion w.storage copied) rest) :
    m.Completing after copied rest := by
  refine ⟨hcontext, h.copied_nodup, ?_, ?_, ?_⟩
  · rw [hstorage]
    exact h.copy_isPrefix
  · rw [hstorage]
    exact h.isPrefix_source
  · rw [hstorage]
    exact hdelivers

variable [DecidableEq ι]

/-- In a run, a pull from the tip of the copy queues its response and changes no accounts. -/
theorem InStep.step_pull (h : m.InStep w.storage) {responses : List Response}
    (hidle : w.sessions m.session = .idle m.context responses) {element : Element}
    (hpull : element.Pulls m.source (m.base w)) :
    ∃ served, (handlePull m.context element).run Accounts.answer w.storage =
        (.ok served, w.storage) ∧
      served = PullRequest.serve ⟨m.source, .tip (.ofHistory (w.storage.history m.copy))⟩
        (.ofHistory (w.storage.history m.source)) (Pack.encode
          ((w.storage.history m.source).drop (w.storage.history m.copy).length)) ∧
      w.step Accounts.answer m.session (.openTag element) =
        (.ok (), ⟨w.storage, Function.update w.sessions m.session
          ⟨m.context, 1, none, responses ++ [served.response]⟩⟩) := by
  have hserved := h.run_handlePull hpull
  refine ⟨_, hserved, rfl, ?_⟩
  rw [World.step, hidle, Session.run_handleEvent_pull _ _ hpull.name_eq hserved]

/-- The storage part of the invariant survives whatever leaves the copy alone and keeps the source
free of repetitions. -/
theorem InStep.step (h : m.InStep w.storage) {i : ι} {event : ParseEvent}
    (hcopy : (w.step Accounts.answer i event).2.storage.history m.copy =
      w.storage.history m.copy)
    (hsource : ((w.step Accounts.answer i event).2.storage.history m.source).Nodup) :
    m.InStep (w.step Accounts.answer i event).2.storage where
  source_known := by
    rw [w.repositories_isSome_step]
    exact h.source_known
  copy_known := by
    rw [w.repositories_isSome_step]
    exact h.copy_known
  source_nodup := hsource
  copy_isPrefix := by
    rw [hcopy]
    exact h.copy_isPrefix.trans (w.history_isPrefix_step i event m.source)

/-- What other sessions do to the source does not disturb the completion of a copy. -/
theorem Completing.step {copied : List CommitId} {events : List ParseEvent}
    (h : m.Completing w copied events) {i : ι} {event : ParseEvent} (hother : i ≠ m.session)
    (hcopy : (w.step Accounts.answer i event).2.storage.history m.copy =
      w.storage.history m.copy) :
    m.Completing (w.step Accounts.answer i event).2 copied events := by
  have hsession := w.sessions_step_of_ne Accounts.answer event (Ne.symm hother)
  refine ⟨?_, h.copied_nodup, ?_, ?_, ?_⟩
  · rw [hsession]
    exact h.context_eq
  · rw [hcopy]
    exact h.copy_isPrefix
  · exact h.isPrefix_source.trans (w.history_isPrefix_step i event m.source)
  · rw [hsession, completion, hcopy]
    exact h.delivers

/-- The mirror relays a response to its pull by a push that will complete the copy. -/
theorem Relays.completing (h : m.InStep w.storage) {responses : List Response}
    (hidle : w.sessions m.session = .idle m.context responses) {element head : Element}
    {children : List Node} {response : Response} (hpull : element.Pulls m.source (m.base w))
    (hresponse : ((w.step Accounts.answer m.session (.openTag element)).2.sessions
      m.session).responses = (w.sessions m.session).responses ++ [response])
    (hrelay : m.Relays (m.base w) response head children) (inner : List Node) :
    m.Completing (w.step Accounts.answer m.session (.openTag element)).2
      (w.storage.history m.source)
      (Node.eventsOf inner ++ .closeTag element.name :: (Node.element head children).events) := by
  obtain ⟨served, -, hserved, hstep⟩ := h.step_pull hidle hpull
  have hsession : (w.step Accounts.answer m.session (.openTag element)).2.sessions m.session =
      ⟨m.context, 1, none, responses ++ [served.response]⟩ := by
    rw [hstep]
    exact Function.update_self _ _ _
  have hstorage : (w.step Accounts.answer m.session (.openTag element)).2.storage = w.storage := by
    rw [hstep]
  have hqueued : response = served.response := by
    rw [hsession, hidle] at hresponse
    simpa [Session.idle] using hresponse.symm
  rw [hqueued, hserved] at hrelay
  have hdelivers := hrelay.delivers (responses ++ [served.response])
  refine ⟨?_, h.source_nodup, ?_, ?_, ?_⟩
  · rw [hsession]
  · rw [hstorage]
    exact h.copy_isPrefix
  · simp only [hstorage, List.prefix_rfl]
  · rw [hsession, hstorage]
    exact hdelivers.after_pull inner element.name

/-- Clients can take their responses during a completion. -/
theorem Completing.drain {copied : List CommitId} {events : List ParseEvent}
    (h : m.Completing w copied events) (i : ι) : m.Completing (w.drain i) copied events := by
  have hstorage : (w.drain i).storage = w.storage := rfl
  rcases w.sessions_drain i m.session with hsame | hdrained
  · apply h.go_on hstorage
    · rw [hsame]
      exact h.context_eq
    · rw [hsame]
      exact h.delivers
  · apply h.go_on hstorage
    · rw [hdrained]
      exact h.context_eq
    · rw [hdrained]
      exact h.delivers.drain

/-- An event of the mirror before the end of its push only moves the push on. -/
theorem Completing.step_send {copied : List CommitId} {event : ParseEvent}
    {rest : List ParseEvent} (h : m.Completing w copied (event :: rest)) (hrest : rest ≠ []) :
    (w.step Accounts.answer m.session event).2.storage = w.storage ∧
      m.Completing (w.step Accounts.answer m.session event).2 copied rest := by
  obtain ⟨t, hevent, hdelivers⟩ := h.delivers.handleEvent_eq hrest
  have hcontext := (w.sessions m.session).context_handleEvent event Accounts.answer w.storage
  have hstorage : (w.step Accounts.answer m.session event).2.storage = w.storage := by
    rw [World.step, hevent]
    rfl
  have hsession : (w.step Accounts.answer m.session event).2.sessions m.session = t := by
    rw [World.sessions_step_self, hevent]
    rfl
  refine ⟨hstorage, ?_⟩
  apply h.go_on hstorage
  · rw [World.sessions_step_self, hcontext, h.context_eq]
  · rw [hsession]
    exact hdelivers

/-- The end of the push of a mirror applies it, completes the copy, leaves every other history
alone, and the session of the mirror is idle again. -/
theorem Completing.step_finish (h : m.InStep w.storage) {copied : List CommitId}
    {event : ParseEvent} (hc : m.Completing w copied [event]) :
    let after := (w.step Accounts.answer m.session event).2
    w.applied? Accounts.answer m.session event =
        some ⟨m.completion w.storage copied, .ofHistory copied⟩ ∧
      (∀ target, after.storage.history target =
        if target = m.copy then copied else w.storage.history target) ∧
      ∃ responses, after.sessions m.session = .idle m.context responses := by
  intro after
  have hclosing := hc.delivers.closing?_eq
  obtain ⟨r, hr, hrun⟩ := run_finalize_completion h.copy_known hc.copied_nodup hc.copy_isPrefix
  rw [← hc.context_eq] at hrun
  have hstep := World.step_of_closing Accounts.answer hclosing
  rw [hrun] at hstep
  refine ⟨?_, ?_, ?_⟩
  · simp only [World.applied?, hclosing, hrun]
    rfl
  · intro target
    rw [show after = _ from congrArg Prod.snd hstep]
    exact Accounts.history_afterPush hr _ copied target
  · rw [show after = _ from congrArg Prod.snd hstep, ← hc.context_eq]
    exact ⟨_, Function.update_self _ _ _⟩

/-- Every move keeps the invariant. -/
theorem Step.sound {s t : World ι Accounts × Phase} (h : m.Step s t) (hs : m.Sound s) :
    m.Sound t := by
  cases h with
  | @other w phase i event hother hcopy hsource =>
    cases phase with
    | resting =>
      obtain ⟨hin, responses, hidle⟩ := hs
      refine ⟨hin.step hcopy hsource, responses, ?_⟩
      rw [w.sessions_step_of_ne Accounts.answer event (Ne.symm hother)]
      exact hidle
    | busy copied events =>
      obtain ⟨hin, hc⟩ := hs
      exact ⟨hin.step hcopy hsource, hc.step hother hcopy⟩
  | @drain w phase i =>
    cases phase with
    | resting =>
      obtain ⟨hin, responses, hidle⟩ := hs
      refine ⟨hin, ?_⟩
      rcases w.sessions_drain i m.session with hsame | hdrained
      · exact ⟨responses, hsame.trans hidle⟩
      · rw [hdrained, hidle]
        exact ⟨[], rfl⟩
    | busy copied events =>
      obtain ⟨hin, hc⟩ := hs
      exact ⟨hin, hc.drain i⟩
  | @pull w element head inner children response hpull hresponse hrelay =>
    obtain ⟨hin, responses, hidle⟩ := hs
    have hc := hrelay.completing hin hidle hpull hresponse inner
    obtain ⟨served, -, -, hstep⟩ := hin.step_pull hidle hpull
    refine ⟨?_, hc⟩
    rw [hstep]
    exact hin
  | @send w copied event rest hrest =>
    obtain ⟨hin, hc⟩ := hs
    obtain ⟨hstorage, hc'⟩ := hc.step_send hrest
    refine ⟨?_, hc'⟩
    rw [hstorage]
    exact hin
  | @finish w copied event =>
    obtain ⟨hin, hc⟩ := hs
    obtain ⟨-, hhistory, hidle⟩ := hc.step_finish hin
    refine ⟨⟨?_, ?_, ?_, ?_⟩, hidle⟩
    · rw [w.repositories_isSome_step]
      exact hin.source_known
    · rw [w.repositories_isSome_step]
      exact hin.copy_known
    · rw [hhistory, if_neg m.source_ne_copy]
      exact hin.source_nodup
    · rw [hhistory, hhistory, if_pos rfl, if_neg m.source_ne_copy]
      exact hc.isPrefix_source

/-- A run keeps the invariant. -/
theorem sound_of_run {s t : World ι Accounts × Phase} (h : Relation.ReflTransGen m.Step s t)
    (hs : m.Sound s) : m.Sound t := by
  induction h with
  | refl => exact hs
  | tail _ hstep ih => exact hstep.sound ih

/-- A pull of the mirror is served: the export succeeds, and the response is queued. -/
def PullServed (m : Mirror ι) (w : World ι Accounts) (element : Element) : Prop :=
  ∃ served tip size, (handlePull m.context element).run Accounts.answer w.storage =
      (.ok served, w.storage) ∧
    served.outcome = .served tip size ∧
    w.step Accounts.answer m.session (.openTag element) = (.ok (), ⟨w.storage,
      Function.update w.sessions m.session ⟨m.context, 1, none,
        (w.sessions m.session).responses ++ [served.response]⟩⟩)

/-- An event of the mirror applies a push after which the copy is the given history. -/
def PushApplied (m : Mirror ι) (w : World ι Accounts) (copied : List CommitId)
    (event : ParseEvent) : Prop :=
  ∃ p, w.applied? Accounts.answer m.session event = some p ∧ p.request.target = m.copy ∧
    p.acknowledged = .ofHistory copied ∧
    (w.step Accounts.answer m.session event).2.storage.history m.copy = copied

/-- In every run of a mirror, for any number of rounds and whatever other sessions push to the
source meanwhile, every pull from the tip of the copy is served, every push that relays a response
is applied when its end tag arrives, and then the copy is what the source was at the pull. -/
theorem pulls_served_and_pushes_applied (m : Mirror ι) {first w : World ι Accounts} {phase : Phase}
    (hstart : m.InStep first.storage)
    (hidle : ∃ responses, first.sessions m.session = .idle m.context responses)
    (hrun : Relation.ReflTransGen m.Step (first, .resting) (w, phase)) :
    (phase = .resting → ∀ element : Element, element.Pulls m.source (m.base w) →
      m.PullServed w element) ∧
    ∀ copied event, phase = .busy copied [event] → m.PushApplied w copied event := by
  have hsound : m.Sound (w, phase) := sound_of_run hrun ⟨hstart, hidle⟩
  constructor
  · intro hresting element hpull
    subst hresting
    obtain ⟨hin, responses, hidle⟩ := hsound
    obtain ⟨served, hserved, hform, hstep⟩ := hin.step_pull hidle hpull
    refine ⟨served, _, _, hserved, by rw [hform]; rfl, ?_⟩
    rw [hstep, hidle]
    rfl
  · intro copied event hbusy
    subst hbusy
    obtain ⟨hin, hc⟩ := hsound
    obtain ⟨happlied, hhistory, -⟩ := hc.step_finish hin
    refine ⟨_, happlied, rfl, rfl, ?_⟩
    rw [hhistory, if_pos rfl]

/-- A mirror of one branch of an account in another. -/
def aliceMirror : Mirror Bool where
  session := true
  context := ⟨.account "alice", .default⟩
  source := ⟨"alice", "main"⟩
  copy := ⟨"alice", "copy"⟩
  source_ne_copy := by decide
  reads := rfl
  writes := rfl
  unbounded := rfl
  unlimited := rfl

/-- The commit that the source has. -/
def oldCommit : CommitId := .uniform 7

/-- The commit that is pushed to the source meanwhile. -/
def newCommit : CommitId := .uniform 8

/-- The mirror is idle, and another session is about to push to the source. -/
def mirrorAndPusher : World Bool Accounts where
  storage := (Accounts.empty.addAccount "alice").setHistory ⟨"alice", "main"⟩ [oldCommit]
  sessions i :=
    if i then .idle ⟨.account "alice", .default⟩ []
    else ⟨⟨.account "alice", .default⟩, 1, some (.awaitingPayload ⟨⟨"alice", "main"⟩,
      .tip (.commit oldCommit), .tip (.commit newCommit), some newCommit.octets⟩ ⟨none, .done⟩
      none), []⟩

/-- The pull that starts a round. -/
def firstPull : Element :=
  .ofAttributes Vocabulary.syncPull [(Vocabulary.branch, "main"), (Vocabulary.serverUser, "alice"),
    (Vocabulary.base, "")]

/-- The push that relays the response. -/
def relayingPush : Element :=
  .ofAttributes Vocabulary.syncPush [(Vocabulary.branch, "copy"), (Vocabulary.serverUser, "alice"),
    (Vocabulary.startCommit, ""), (Vocabulary.lastCommit, oldCommit.toHex)]

/-- The pack of the response, in two pieces and with blanks. -/
def relayedPack : List Node :=
  [.element (.ofAttributes Vocabulary.pack [])
    [.text " BwcHBwcH\n", .text "BwcHBwcHBwcHBwcHBwc="]]

/-- The response to the pull. -/
def firstResponse : Response :=
  PullRequest.respond ⟨⟨"alice", "main"⟩, .tip .empty⟩ (.commit oldCommit) oldCommit.octets

/-- The push carries what the response carried. -/
theorem relays_firstResponse :
    aliceMirror.Relays (aliceMirror.base mirrorAndPusher) firstResponse relayingPush
      relayedPack where
  header := ⟨_, rfl, ⟨rfl, rfl, rfl, rfl, rfl⟩⟩
  payload := ⟨_, rfl, by decide +kernel⟩

/-- The other session pushes to the source during a round, and at its end the copy is what the
source was before. -/
theorem aliceMirror_round :
    aliceMirror.PullServed mirrorAndPusher firstPull ∧
      ∃ w, Relation.ReflTransGen aliceMirror.Step (mirrorAndPusher, .resting)
          (w, .busy [oldCommit] [.closeTag Vocabulary.syncPush]) ∧
        w.storage.history ⟨"alice", "main"⟩ = [oldCommit, newCommit] ∧
        aliceMirror.PushApplied w [oldCommit] (.closeTag Vocabulary.syncPush) := by
  have hstart : aliceMirror.InStep mirrorAndPusher.storage := ⟨rfl, rfl, by decide, ⟨_, rfl⟩⟩
  have hserved := (pulls_served_and_pushes_applied aliceMirror hstart ⟨[], rfl⟩ .refl).1 rfl
    firstPull ⟨rfl, rfl, rfl, rfl⟩
  have hpull : Relation.ReflTransGen aliceMirror.Step (mirrorAndPusher, .resting) _ :=
    .single (@Step.pull _ _ aliceMirror _ firstPull relayingPush [] relayedPack firstResponse
      ⟨rfl, rfl, rfl, rfl⟩ rfl relays_firstResponse)
  have hother := hpull.tail (@Step.other _ _ aliceMirror _ _ false
    (.closeTag Vocabulary.syncPush) (by decide) rfl (by decide))
  have hsent := (((((hother.tail (.send (List.cons_ne_nil _ _))).tail
    (.send (List.cons_ne_nil _ _))).tail (.send (List.cons_ne_nil _ _))).tail
    (.send (List.cons_ne_nil _ _))).tail (.send (List.cons_ne_nil _ _))).tail
    (.send (List.cons_ne_nil _ _))
  refine ⟨hserved, _, hsent, ?_, ?_⟩
  · decide
  · exact (pulls_served_and_pushes_applied aliceMirror hstart ⟨[], rfl⟩ hsent).2 _ _ rfl

end Mirror

end BranchSync
