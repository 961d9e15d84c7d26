import BranchSync.Proofs.World.Interleaving

/-!
# The check of the start does not show

A policy may have the start of a push compared with the tip of the branch before the pack is
imported. Over accounts in memory this refuses nothing that the import would not refuse with the
same answer, and it lets pass whatever the import accepts. So any number of sessions that share
accounts can have the check flipped, also while pushes are under way, and no result, no response,
no history and no mailbox ever tells.
-/

namespace BranchSync

/-- The context with the check of the start flipped, if so chosen. -/
def SyncContext.flipped (flip : Bool) (context : SyncContext) : SyncContext :=
  { context with
    policy := { context.policy with verifyStartTip := xor flip context.policy.verifyStartTip } }

/-- Over accounts in memory, a push is finished alike with and without the check of its start. -/
theorem PushExchange.run_finish_flipped (push : PushExchange) (flip : Bool) (context : SyncContext)
    (a : Accounts) :
    (push.finish (context.flipped flip)).1.run Accounts.answer a =
      (push.finish context).1.run Accounts.answer a := by
  cases push with
  | awaitingPayload request collector fault =>
    have hsame : (request.finalize (context.flipped flip) fault).run Accounts.answer a =
        (request.finalize context fault).run Accounts.answer a := by
      -- neither side of `run_finalize` reads the policy
      rw [PushRequest.run_finalize, PushRequest.run_finalize]
      rfl
    simp only [PushExchange.finish, BackendProgram.run_bind, hsame]
  | awaitingHeader => rfl
  | finalized => rfl
  | rejected => rfl

namespace Session

variable (flip : Bool)

/-- The session with the check of the start flipped, if so chosen. -/
def flipped (s : Session) : Session :=
  { s with context := s.context.flipped flip }

/-- Flipping the check changes the context alone. -/
theorem flipped_mk (context : SyncContext) (depth : Nat) (push : Option PushExchange)
    (responses : List Response) :
    flipped flip ⟨context, depth, push, responses⟩ =
      ⟨context.flipped flip, depth, push, responses⟩ := rfl

/-- The outcome of an event with the check of the start flipped in the session that remains. -/
def outcomeFlipped (outcome : Except SyncError Unit × Session) : Except SyncError Unit × Session :=
  (outcome.1, outcome.2.flipped flip)

/-- A top-level start tag does not notice the check. -/
theorem dispatch_flipped (s : Session) (element : Element) :
    (s.flipped flip).dispatch element = outcomeFlipped flip <$> s.dispatch element := by
  unfold dispatch
  by_cases hpull : element.name = Vocabulary.syncPull
  · rw [if_pos hpull, if_pos hpull, map_bind]
    change handlePull s.context element >>= _ = _
    congr 1
    funext answer
    cases answer <;> rfl
  · rw [if_neg hpull, if_neg hpull]
    by_cases hpush : element.name = Vocabulary.syncPush
    · rw [if_pos hpush, if_pos hpush]
      unfold PushExchange.header
      cases PushRequest.ofElement element <;> rfl
    · rw [if_neg hpush, if_neg hpush]
      rfl

/-- A start tag does not notice the check. -/
theorem openTag_flipped (s : Session) (element : Element) :
    (s.flipped flip).openTag element = outcomeFlipped flip <$> s.openTag element := by
  obtain ⟨context, depth, push, responses⟩ := s
  rw [flipped_mk]
  cases push with
  | some push =>
    simp only [openTag]
    by_cases hpack : depth + 1 = 2 ∧ element.name = Vocabulary.pack
    · rw [if_pos hpack, if_pos hpack]
      rfl
    · rw [if_neg hpack, if_neg hpack]
      rfl
  | none =>
    simp only [openTag]
    by_cases htop : depth + 1 = 1
    · rw [if_pos htop, if_pos htop]
      exact dispatch_flipped flip ⟨context, depth + 1, none, responses⟩ element
    · rw [if_neg htop, if_neg htop]
      rfl

/-- Text does not notice the check. -/
theorem text_flipped (s : Session) (content : String) :
    (s.flipped flip).text content = (s.text content).flipped flip := by
  obtain ⟨context, depth, push, responses⟩ := s
  rw [flipped_mk]
  cases push with
  | none => rfl
  | some push =>
    simp only [text]
    by_cases hdepth : depth = 2
    · rw [if_pos hdepth, if_pos hdepth, flipped_mk]
    · rw [if_neg hdepth, if_neg hdepth, flipped_mk]

/-- Over accounts in memory, an end tag does not notice the check. -/
theorem run_closeTag_flipped (s : Session) (name : String) (a : Accounts) :
    ((s.flipped flip).closeTag name).run Accounts.answer a =
      let closed := (s.closeTag name).run Accounts.answer a
      (outcomeFlipped flip closed.1, closed.2) := by
  obtain ⟨context, depth, push, responses⟩ := s
  rw [flipped_mk]
  cases push with
  | none => rfl
  | some push =>
    simp only [closeTag]
    generalize (if depth - 1 = 1 ∧ name = Vocabulary.pack then push.payloadEnd else push) = push'
    by_cases htop : depth - 1 = 0
    · rw [if_pos htop, if_pos htop, BackendProgram.run_bind, BackendProgram.run_bind,
        PushExchange.run_finish_flipped]
      rcases (push'.finish context).1.run Accounts.answer a with ⟨answer, after⟩
      cases answer <;> rfl
    · rw [if_neg htop, if_neg htop]
      rfl

/-- Over accounts in memory, an event does not notice the check. -/
theorem run_handleEvent_flipped (s : Session) (event : ParseEvent) (a : Accounts) :
    ((s.flipped flip).handleEvent event).run Accounts.answer a =
      let handled := (s.handleEvent event).run Accounts.answer a
      (outcomeFlipped flip handled.1, handled.2) := by
  cases event with
  | openTag element => simp only [handleEvent, openTag_flipped, BackendProgram.run_map]
  | text content =>
    simp only [handleEvent, text_flipped]
    rfl
  | closeTag name => exact run_closeTag_flipped flip s name a

end Session

namespace World

variable {ι : Type*} [DecidableEq ι]

/-- The world with the check of the start flipped in the chosen sessions. -/
def flipped (chosen : ι → Bool) (w : World ι Accounts) : World ι Accounts :=
  { w with sessions := fun i => (w.sessions i).flipped (chosen i) }

/-- With the check flipped in some sessions, an event has the same result and leads to the same
world but for the flip. -/
theorem step_flipped (chosen : ι → Bool) (w : World ι Accounts) (i : ι) (event : ParseEvent) :
    (w.flipped chosen).step Accounts.answer i event =
      let stepped := w.step Accounts.answer i event
      (stepped.1, stepped.2.flipped chosen) := by
  have hsessions (next : Session) :
      Function.update (w.flipped chosen).sessions i (next.flipped (chosen i)) =
        fun j => (Function.update w.sessions i next j).flipped (chosen j) := by
    funext j
    by_cases hj : j = i
    · subst hj
      rw [Function.update_self, Function.update_self]
    · rw [Function.update_of_ne hj, Function.update_of_ne hj]
      rfl
  have hhandled := Session.run_handleEvent_flipped (chosen i) (w.sessions i) event w.storage
  simp only [step]
  rw [show (w.flipped chosen).storage = w.storage from rfl,
    show (w.flipped chosen).sessions i = (w.sessions i).flipped (chosen i) from rfl, hhandled]
  simp only [Session.outcomeFlipped, hsessions]
  rfl

/-- With the check flipped in some sessions, a run leads to the same world but for the flip. -/
theorem run_flipped (chosen : ι → Bool) (w : World ι Accounts) (events : List (ι × ParseEvent)) :
    (w.flipped chosen).run Accounts.answer events =
      (w.run Accounts.answer events).flipped chosen := by
  induction events generalizing w with
  | nil => rfl
  | cons e rest ih =>
    obtain ⟨i, event⟩ := e
    rw [run, run, step_flipped, ih]

/-- However the events of sessions interleave, flipping the check of the start in any of them shows
nowhere: after every event the accounts hold the same repositories and mailboxes, every session has
the same responses, and whatever comes next has the same result. -/
theorem start_check_unobservable (chosen : ι → Bool) (w : World ι Accounts)
    (events : List (ι × ParseEvent)) :
    let plain := w.run Accounts.answer events
    let flipped := (w.flipped chosen).run Accounts.answer events
    flipped.storage = plain.storage ∧
      (∀ i, (flipped.sessions i).responses = (plain.sessions i).responses) ∧
      ∀ i event,
        (flipped.step Accounts.answer i event).1 = (plain.step Accounts.answer i event).1 := by
  intro plain flipped
  have hrun : flipped = plain.flipped chosen := run_flipped chosen w events
  rw [hrun]
  refine ⟨rfl, fun i => rfl, ?_⟩
  intro i event
  rw [step_flipped]

end World

end BranchSync
