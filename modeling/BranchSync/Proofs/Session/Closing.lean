import BranchSync.Proofs.Pull.Serving
import BranchSync.Proofs.Push.Finalizing
import BranchSync.Proofs.Session.Events
import BranchSync.Proofs.Session.Handling

/-!
# What an event does to the storage

An event of a session asks the storage nothing, or it is a start tag that is handled as a pull,
or it runs the push in flight. Over accounts in memory only the last kind can change anything:
every other event leaves the accounts as they were, whether it is served, refused or merely counted.
-/

namespace BranchSync.Session

/-- The outcome of an event leaves the queue as it was, and the session acts as it did before. -/
structure Silent (s : Session) (outcome : Except SyncError Unit × Session) : Prop where
  context_eq : outcome.2.context = s.context
  responses_eq : outcome.2.responses = s.responses

/-- An event asks the storage nothing and queues nothing, or it is handled as a pull, or it runs a
push. -/
theorem handleEvent_cases (s : Session) (event : ParseEvent) :
    (∃ result, s.handleEvent event = pure result ∧ s.Silent result) ∨
      (∃ element, s.handleEvent event = (do
        let result ← handlePull s.context element
        pure (s.pulled result))) ∨
      ∃ request fault, s.closing? event = some (request, fault) := by
  cases s.handling event with
  | counted hpush hhandled => exact Or.inl ⟨_, hhandled, rfl, rfl⟩
  | fed push hpush hbelow hhandled => exact Or.inl ⟨_, hhandled, rfl, rfl⟩
  | served element hevent hpush hhandled => exact Or.inr (Or.inl ⟨element, hhandled⟩)
  | opened head request hevent hpush hdepth hname hrequest hhandled =>
    exact Or.inl ⟨_, hhandled, rfl, rfl⟩
  | refused element e hevent hpush hrefusal hhandled => exact Or.inl ⟨_, hhandled, rfl, rfl⟩
  | ran request fault hclosing => exact Or.inr (Or.inr ⟨request, fault, hclosing⟩)
  | dropped name push e hevent hpush hphase hhandled => exact Or.inl ⟨_, hhandled, rfl, rfl⟩

/-- A session acts for the same principal under the same policy after every event. -/
theorem context_handleEvent {σ : Type} (s : Session) (event : ParseEvent)
    (answer : BackendProgram.Handler σ) (storage : σ) :
    ((s.handleEvent event).run answer storage).1.2.context = s.context := by
  rcases s.handleEvent_cases event with
    ⟨result, hpure, hsilent⟩ | ⟨element, hpull⟩ | ⟨request, fault, hclosing⟩
  · rw [hpure]
    exact hsilent.context_eq
  · rw [hpull, BackendProgram.run_bind, BackendProgram.run_pure]
    exact s.pulled_context _
  · rw [handleEvent_of_closing hclosing, BackendProgram.run_bind]
    rfl

/-- A session acts for the same principal under the same policy after all events. -/
theorem context_handleEvents {σ : Type} (s : Session) (events : List ParseEvent)
    (answer : BackendProgram.Handler σ) (storage : σ) :
    ((s.handleEvents events).run answer storage).1.2.context = s.context := by
  induction events generalizing s storage with
  | nil => rfl
  | cons event rest ih =>
    rw [run_handleEvents_cons]
    exact (ih _ _).trans (s.context_handleEvent event answer storage)

/-- An event that runs no push changes no accounts in memory. -/
theorem run_handleEvent_storage {s : Session} {event : ParseEvent} (h : s.closing? event = none)
    (a : Accounts) : ((s.handleEvent event).run Accounts.answer a).2 = a := by
  rcases s.handleEvent_cases event with
    ⟨result, hpure, -⟩ | ⟨element, hpull⟩ | ⟨request, fault, hclosing⟩
  · rw [hpure]
    rfl
  · rw [hpull, BackendProgram.run_bind, run_handlePull]
    rfl
  · rw [h] at hclosing
    cases hclosing

end BranchSync.Session
