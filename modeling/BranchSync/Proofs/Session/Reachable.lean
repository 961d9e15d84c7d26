import BranchSync.Proofs.Session.Handling

/-!
# The states that a session reaches

A session starts at the top level and moves by handling events and by being drained, whatever
storage answers its calls and however that storage changes in between. In every state that it
reaches, a push is in flight only below the top level, and it has its header and awaits its
payload.
-/

namespace BranchSync

/-- A push that has its header and was not closed yet. -/
def PushExchange.AwaitsPayload (push : PushExchange) : Prop :=
  ∃ request collector fault, push = .awaitingPayload request collector fault

namespace PushExchange.AwaitsPayload

variable {push : PushExchange}

/-- The start of a pack element does not end the wait. -/
theorem payloadStart (h : push.AwaitsPayload) : push.payloadStart.2.AwaitsPayload := by
  obtain ⟨request, collector, fault, rfl⟩ := h
  exact ⟨request, collector.begin.2, fault, rfl⟩

/-- Text does not end the wait. -/
theorem payloadText (h : push.AwaitsPayload) (text : String) :
    (push.payloadText text).AwaitsPayload := by
  obtain ⟨request, collector, fault, rfl⟩ := h
  exact ⟨request, collector.pushText text, fault, rfl⟩

/-- The end of a pack element does not end the wait. -/
theorem payloadEnd (h : push.AwaitsPayload) : push.payloadEnd.AwaitsPayload := by
  obtain ⟨request, collector, fault, rfl⟩ := h
  unfold PushExchange.payloadEnd
  dsimp only
  split
  · exact ⟨_, _, _, rfl⟩
  · exact ⟨_, _, _, rfl⟩
  · exact ⟨_, _, _, rfl⟩

/-- No event below the top level ends the wait. -/
theorem feed (h : push.AwaitsPayload) (depth : Nat) (event : ParseEvent) :
    (push.feed depth event).AwaitsPayload := by
  cases event with
  | openTag element =>
    simp only [PushExchange.feed]
    split
    · exact h.payloadStart
    · exact h
  | text content =>
    simp only [PushExchange.feed]
    split
    · exact h.payloadText content
    · exact h
  | closeTag name =>
    simp only [PushExchange.feed]
    split
    · exact h.payloadEnd
    · exact h

end PushExchange.AwaitsPayload

namespace Session

/-- The states that a session can get into, whoever answers its calls. -/
inductive Reachable : Session → Prop
  | new (context : SyncContext) : Reachable (.new context)
  | event {s : Session} {σ : Type} (h : Reachable s) (answer : BackendProgram.Handler σ)
      (storage : σ) (event : ParseEvent) :
      Reachable ((s.handleEvent event).run answer storage).1.2
  | drain {s : Session} (h : Reachable s) : Reachable s.drain.2

/-- An event leads a session to its depth, whatever the storage replies. -/
theorem depth_handleEvent {σ : Type} (s : Session) (event : ParseEvent)
    (answer : BackendProgram.Handler σ) (storage : σ) :
    ((s.handleEvent event).run answer storage).1.2.depth = event.leadsTo s.depth := by
  cases s.handling event with
  | counted hpush hhandled => rw [hhandled, BackendProgram.run_pure]
  | fed push hpush hbelow hhandled => rw [hhandled, BackendProgram.run_pure]
  | served element hevent hpush hhandled =>
    rw [hhandled, BackendProgram.run_bind, BackendProgram.run_pure, hevent]
    exact s.pulled_depth _
  | opened head request hevent hpush hdepth hname hrequest hhandled =>
    rw [hhandled, BackendProgram.run_pure, hevent]
    rfl
  | refused element e hevent hpush hrefusal hhandled =>
    rw [hhandled, BackendProgram.run_pure, hevent]
    rfl
  | ran request fault hclosing =>
    obtain ⟨hdepth, ⟨name, rfl⟩, -⟩ := closing?_eq_some_iff.mp hclosing
    rw [handleEvent_of_closing hclosing, BackendProgram.run_bind]
    exact (Nat.sub_eq_zero_of_le hdepth).symm
  | dropped name push e hevent hpush hphase hhandled => rw [hhandled, BackendProgram.run_pure]

/-- A push is in flight only while its start tag is open, and it awaits its payload. -/
def Sound (s : Session) : Prop :=
  ∀ push, s.push = some push → 1 ≤ s.depth ∧ push.AwaitsPayload

/-- A session without a push in flight is sound. -/
theorem sound_of_push_eq_none {s : Session} (h : s.push = none) : s.Sound := by
  intro push hpush
  rw [h] at hpush
  cases hpush

variable {σ : Type} {s : Session}

/-- An event leaves a sound session sound. -/
theorem Sound.handleEvent (h : s.Sound) (event : ParseEvent) (answer : BackendProgram.Handler σ)
    (storage : σ) : ((s.handleEvent event).run answer storage).1.2.Sound := by
  cases s.handling event with
  | counted hpush hhandled =>
    rw [hhandled]
    exact sound_of_push_eq_none hpush
  | fed push hpush hbelow hhandled =>
    obtain ⟨hdepth, hawaits⟩ := h push hpush
    rw [hhandled]
    intro push' hsome
    cases hsome
    exact ⟨hbelow hdepth, hawaits.feed s.depth event⟩
  | served element hevent hpush hhandled =>
    rw [hhandled, BackendProgram.run_bind]
    exact sound_of_push_eq_none ((s.pulled_push _).trans hpush)
  | opened head request hevent hpush hdepth hname hrequest hhandled =>
    rw [hhandled]
    intro push hsome
    cases hsome
    exact ⟨Nat.le_add_left 1 s.depth, request, _, none, rfl⟩
  | refused element e hevent hpush hrefusal hhandled =>
    rw [hhandled]
    exact sound_of_push_eq_none hpush
  | ran request fault hclosing =>
    rw [handleEvent_of_closing hclosing, BackendProgram.run_bind]
    exact sound_of_push_eq_none rfl
  | dropped name push e hevent hpush hphase hhandled =>
    rw [hhandled]
    exact sound_of_push_eq_none rfl

/-- A session is sound in every state that it reaches. -/
theorem Reachable.sound (h : s.Reachable) : s.Sound := by
  induction h with
  | new context => exact sound_of_push_eq_none rfl
  | event _ answer storage event ih => exact ih.handleEvent event answer storage
  | drain _ ih => exact ih

end Session

end BranchSync
