import BranchSync.Proofs.Session.Closing
import Mathlib.Logic.Function.Basic

/-!
# Sessions that share a storage

Any number of sessions take turns at one storage. A turn is one parse event of one session; the
events of different sessions interleave in any order, so a push may be in flight in many
sessions at once. `World.appliedPushes` lists the pushes that were applied in a run, in the order
of their closing tags.

Turns are whole events; calls of one event that come between the calls of another are the subject of
`Race`.
-/

namespace BranchSync

/-- A push that was applied, with the tip that was acknowledged to the client. -/
structure AppliedPush where
  request : PushRequest
  acknowledged : Tip
  deriving DecidableEq

namespace AppliedPush

/-- The commits in the pack of a push; a push without a pack carries none. -/
def commits (p : AppliedPush) : List CommitId :=
  match Pack.decode (p.request.pack.getD []) with
  | .ok commits => commits
  | .error _ => []

/-- The push appends its commits to a history, in accordance with what it announced. -/
structure Extends (p : AppliedPush) (history : List CommitId) : Prop where
  readable : Pack.decode (p.request.pack.getD []) = .ok p.commits
  start_eq : ∃ tip, p.request.start = .tip tip ∧
    Repository.position? history tip = some history.length
  last_eq : p.request.last = .tip p.acknowledged
  acknowledged_eq : p.acknowledged = .ofHistory (history ++ p.commits)

/-- A push that extends a history starts from a tip whose position is the end of the history. -/
theorem Extends.position?_eq {p : AppliedPush} {history : List CommitId} {tip : Tip}
    (h : p.Extends history) (hstart : p.request.start = .tip tip) :
    Repository.position? history tip = some history.length := by
  obtain ⟨start, hstart', hend⟩ := h.start_eq
  rw [hstart] at hstart'
  cases hstart'
  exact hend

/-- A push that extends a history starts at the tip of the history. -/
theorem Extends.start_eq_ofHistory {p : AppliedPush} {history : List CommitId}
    (h : p.Extends history) : p.request.start = .tip (.ofHistory history) := by
  obtain ⟨tip, hstart, hend⟩ := h.start_eq
  rw [hstart, Repository.eq_ofHistory_of_position? hend]

/-- An import that succeeds makes an applied push that extends the history, and nothing but its
commits is added. -/
theorem extends_of_importPack {a : Accounts} {request : PushRequest} {r r' : Repository}
    (hr : a.repositories.get? request.target.user = some r)
    (himport : r.importPack request.target.branch (request.pack.getD []) request.start
      request.last = .ok r') :
    let p : AppliedPush := ⟨request, r'.tip request.target.branch⟩
    p.Extends (a.history request.target) ∧
      r' = r.setHistory request.target.branch (a.history request.target ++ p.commits) := by
  intro p
  obtain ⟨commits, tip, hdecode, hstart, hend, hlast, hr'⟩ :=
    Repository.importPack_eq_ok_iff.mp himport
  have hcommits : p.commits = commits := by
    simp [AppliedPush.commits, p, hdecode]
  have htip : p.acknowledged = .ofHistory (r.history request.target.branch ++ commits) := by
    simp [p, hr', Repository.tip, Repository.history_setHistory]
  rw [Accounts.history_eq hr, hcommits]
  refine ⟨⟨?_, ⟨tip, hstart, hend⟩, ?_, ?_⟩, hr'⟩
  · rw [hcommits]
    exact hdecode
  · rw [htip]
    exact hlast
  · rw [htip, hcommits]

end AppliedPush

/-- Sessions, named by `ι`, and the storage that they share. -/
structure World (ι : Type*) (σ : Type) where
  storage : σ
  sessions : ι → Session

namespace World

variable {ι : Type*} [DecidableEq ι] {σ : Type}

/-- One session handles one event; the other sessions do not notice. -/
def step (answer : BackendProgram.Handler σ) (w : World ι σ) (i : ι) (event : ParseEvent) :
    Except SyncError Unit × World ι σ :=
  let handled := ((w.sessions i).handleEvent event).run answer w.storage
  (handled.1.1, ⟨handled.2, Function.update w.sessions i handled.1.2⟩)

/-- The client of a session takes its responses. -/
def drain (w : World ι σ) (i : ι) : World ι σ :=
  { w with sessions := Function.update w.sessions i (w.sessions i).drain.2 }

/-- The sessions handle events one after the other. -/
def run (answer : BackendProgram.Handler σ) (w : World ι σ) :
    List (ι × ParseEvent) → World ι σ
  | [] => w
  | (i, event) :: rest => run answer (w.step answer i event).2 rest

/-- The push that an event runs, if it is applied. -/
def applied? (answer : BackendProgram.Handler σ) (w : World ι σ) (i : ι) (event : ParseEvent) :
    Option AppliedPush :=
  match (w.sessions i).closing? event with
  | none => none
  | some (request, fault) =>
    match ((request.finalize (w.sessions i).context fault).run answer w.storage).1.outcome with
    | .applied tip => some ⟨request, tip⟩
    | .failed _ => none

/-- The pushes that are applied while the sessions handle events, in order. -/
def appliedPushes (answer : BackendProgram.Handler σ) (w : World ι σ) :
    List (ι × ParseEvent) → List AppliedPush
  | [] => []
  | (i, event) :: rest =>
    (w.applied? answer i event).toList ++ appliedPushes answer (w.step answer i event).2 rest

/-- The session that handled an event is in the state that it left behind. -/
theorem sessions_step_self (answer : BackendProgram.Handler σ) (w : World ι σ) (i : ι)
    (event : ParseEvent) :
    (w.step answer i event).2.sessions i =
      (((w.sessions i).handleEvent event).run answer w.storage).1.2 :=
  Function.update_self _ _ _

/-- The other sessions do not notice the event. -/
theorem sessions_step_of_ne (answer : BackendProgram.Handler σ) (w : World ι σ) {i j : ι}
    (event : ParseEvent) (h : j ≠ i) : (w.step answer i event).2.sessions j = w.sessions j :=
  Function.update_of_ne h _ _

/-- Taking the responses of one session leaves the others as they were. -/
theorem sessions_drain (w : World ι σ) (i j : ι) :
    (w.drain i).sessions j = w.sessions j ∨ (w.drain i).sessions j = (w.sessions j).drain.2 := by
  by_cases h : j = i
  · rw [h]
    exact Or.inr (Function.update_self _ _ _)
  · exact Or.inl (Function.update_of_ne h _ _)

/-- Events can be handled piece by piece. -/
theorem run_append (answer : BackendProgram.Handler σ) (w : World ι σ)
    (first second : List (ι × ParseEvent)) :
    w.run answer (first ++ second) = (w.run answer first).run answer second := by
  induction first generalizing w with
  | nil => rfl
  | cons e rest ih => exact ih _

/-- An event that runs a push leaves behind what finalizing the push leaves behind. -/
theorem step_of_closing (answer : BackendProgram.Handler σ) {w : World ι σ} {i : ι}
    {event : ParseEvent} {request : PushRequest} {fault : Option ProtocolError}
    (h : (w.sessions i).closing? event = some (request, fault)) :
    w.step answer i event =
      let finished := (request.finalize (w.sessions i).context fault).run answer w.storage
      (.ok (), ⟨finished.2,
        Function.update w.sessions i ((w.sessions i).closed finished.1.response)⟩) := by
  simp [step, Session.handleEvent_of_closing h]

/-- A push that is applied over accounts in memory is acknowledged to its session. -/
theorem step_of_applied {w : World ι Accounts} {i : ι} {event : ParseEvent} {p : AppliedPush}
    (h : w.applied? Accounts.answer i event = some p) :
    ((w.step Accounts.answer i event).2.sessions i).responses =
      (w.sessions i).responses ++ [(p.request.accept p.acknowledged).response] := by
  cases hclosing : (w.sessions i).closing? event with
  | none => simp [applied?, hclosing] at h
  | some closing =>
    obtain ⟨request, fault⟩ := closing
    rw [step_of_closing Accounts.answer hclosing]
    simp only [applied?, hclosing] at h
    rcases PushRequest.finalize_cases request (w.sessions i).context fault w.storage with
      ⟨failure, hrun⟩ | ⟨r, r', -, -, -, hrun⟩
    · rw [hrun] at h
      cases h
    · rw [hrun] at h
      cases h
      simp [hrun, Session.closed]

/-- An event over accounts in memory applies no push and changes no accounts, or it applies a push
that the repository takes, and leaves behind what that push leaves behind. -/
theorem storage_step_cases (w : World ι Accounts) (i : ι) (event : ParseEvent) :
    (w.applied? Accounts.answer i event = none ∧
      (w.step Accounts.answer i event).2.storage = w.storage) ∨
    ∃ (request : PushRequest) (r r' : Repository),
      w.applied? Accounts.answer i event = some ⟨request, r'.tip request.target.branch⟩ ∧
      w.storage.repositories.get? request.target.user = some r ∧
      r.importPack request.target.branch (request.pack.getD []) request.start request.last =
        .ok r' ∧
      (w.step Accounts.answer i event).2.storage =
        w.storage.afterPush (w.sessions i).context.principal request.target r' := by
  cases hclosing : (w.sessions i).closing? event with
  | none =>
    refine Or.inl ⟨by simp [applied?, hclosing], ?_⟩
    exact Session.run_handleEvent_storage hclosing w.storage
  | some closing =>
    obtain ⟨request, fault⟩ := closing
    rw [step_of_closing Accounts.answer hclosing]
    simp only [applied?, hclosing]
    rcases PushRequest.finalize_cases request (w.sessions i).context fault w.storage with
      ⟨failure, hrun⟩ | ⟨r, r', -, hr, himport, hrun⟩
    · exact Or.inl ⟨by rw [hrun]; rfl, by rw [hrun]⟩
    · refine Or.inr ⟨request, r, r', ?_, hr, himport, ?_⟩
      · rw [hrun]
        rfl
      · rw [hrun]

/-- An event over accounts in memory either applies no push and changes no accounts, or applies
one push, which extends the history of its branch and changes no other history. -/
theorem step_cases (w : World ι Accounts) (i : ι) (event : ParseEvent) :
    (w.applied? Accounts.answer i event = none ∧
      (w.step Accounts.answer i event).2.storage = w.storage) ∨
    ∃ p, w.applied? Accounts.answer i event = some p ∧
      p.Extends (w.storage.history p.request.target) ∧
      ∀ target, (w.step Accounts.answer i event).2.storage.history target =
        if target = p.request.target then w.storage.history target ++ p.commits
        else w.storage.history target := by
  rcases w.storage_step_cases i event with hnone | ⟨request, r, r', happlied, hr, himport, hafter⟩
  · exact Or.inl hnone
  · obtain ⟨hextends, hr'⟩ := AppliedPush.extends_of_importPack hr himport
    refine Or.inr ⟨_, happlied, hextends, ?_⟩
    intro target
    rw [hafter, hr', Accounts.history_afterPush hr, ← hr']
    by_cases htarget : target = request.target
    · rw [if_pos htarget, if_pos htarget, htarget]
    · rw [if_neg htarget, if_neg htarget]

/-- A history only grows at its end. -/
theorem history_isPrefix_step (w : World ι Accounts) (i : ι) (event : ParseEvent)
    (target : BranchRef) :
    w.storage.history target <+: (w.step Accounts.answer i event).2.storage.history target := by
  rcases w.step_cases i event with ⟨-, hstorage⟩ | ⟨p, -, -, hhistory⟩
  · simp only [hstorage, List.prefix_rfl]
  · rw [hhistory]
    split
    · exact List.prefix_append _ _
    · exact List.prefix_rfl

/-- An event neither adds nor removes a repository. -/
theorem repositories_isSome_step (w : World ι Accounts) (i : ι) (event : ParseEvent)
    (user : String) :
    ((w.step Accounts.answer i event).2.storage.repositories.get? user).isSome =
      (w.storage.repositories.get? user).isSome := by
  rcases w.storage_step_cases i event with ⟨-, hsame⟩ | ⟨request, r, r', -, hr, -, hafter⟩
  · rw [hsame]
  · rw [hafter]
    exact Accounts.repositories_isSome_afterPush hr _ r' user

/-- A run neither adds nor removes a repository. -/
theorem repositories_isSome_run (w : World ι Accounts) (events : List (ι × ParseEvent))
    (user : String) :
    ((w.run Accounts.answer events).storage.repositories.get? user).isSome =
      (w.storage.repositories.get? user).isSome := by
  induction events generalizing w with
  | nil => rfl
  | cons e rest ih =>
    obtain ⟨i, event⟩ := e
    rw [run, ih, repositories_isSome_step]

end World

end BranchSync
