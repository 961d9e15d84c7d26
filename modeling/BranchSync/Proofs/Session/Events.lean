import BranchSync.Session

/-!
# Lists of events

A session consumes every event of a list and reports the first error. Lists can therefore be
fed piece by piece, and events that neither call the storage nor fail only decide which session
sees the events after them.
-/

namespace BranchSync.Session

/-- Nothing went wrong before a later result. -/
@[simp] theorem firstError_ok (later : Except SyncError Unit) :
    firstError (.ok ()) later = later := rfl

/-- Nothing goes wrong after an earlier result. -/
@[simp] theorem firstError_ok_right (earlier : Except SyncError Unit) :
    firstError earlier (.ok ()) = earlier := by
  cases earlier <;> rfl

/-- The first error of three results does not depend on how they are grouped. -/
theorem firstError_assoc (a b c : Except SyncError Unit) :
    firstError (firstError a b) c = firstError a (firstError b c) := by
  cases a <;> rfl

/-- Feeding two lists of events one after the other reports the first error of both. -/
theorem handleEvents_append (s : Session) (first second : List ParseEvent) :
    s.handleEvents (first ++ second) = (do
      let (earlier, s) ← s.handleEvents first
      let (later, s) ← s.handleEvents second
      pure (firstError earlier later, s)) := by
  induction first generalizing s with
  | nil => simp [handleEvents]
  | cons event rest ih => simp [handleEvents, ih, firstError_assoc]

/-- The run of an event and of the events after it. -/
theorem run_handleEvents_cons {σ : Type} (answer : BackendProgram.Handler σ) (s : Session)
    (event : ParseEvent) (rest : List ParseEvent) (storage : σ) :
    (s.handleEvents (event :: rest)).run answer storage =
      let handled := (s.handleEvent event).run answer storage
      let later := (handled.1.2.handleEvents rest).run answer handled.2
      ((firstError handled.1.1 later.1.1, later.1.2), later.2) := by
  simp [handleEvents]

/-- The run of events in two parts. -/
theorem run_handleEvents_append {σ : Type} (answer : BackendProgram.Handler σ) (s : Session)
    (first second : List ParseEvent) (storage : σ) :
    (s.handleEvents (first ++ second)).run answer storage =
      let earlier := (s.handleEvents first).run answer storage
      let later := (earlier.1.2.handleEvents second).run answer earlier.2
      ((firstError earlier.1.1 later.1.1, later.1.2), later.2) := by
  simp [handleEvents_append]

/-- Events that call nothing and fail nowhere only change the session that sees the rest. -/
theorem handleEvents_append_of_pure {s t : Session} {first : List ParseEvent}
    (h : s.handleEvents first = pure (.ok (), t)) (second : List ParseEvent) :
    s.handleEvents (first ++ second) = t.handleEvents second := by
  simp [handleEvents_append, h]

/-- An event that calls nothing and does not fail only changes the session that sees the rest. -/
theorem handleEvents_cons_of_pure {s t : Session} {event : ParseEvent}
    (h : s.handleEvent event = pure (.ok (), t)) (rest : List ParseEvent) :
    s.handleEvents (event :: rest) = t.handleEvents rest := by
  simp [handleEvents, h]

end BranchSync.Session
