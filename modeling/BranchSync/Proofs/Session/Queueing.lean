import BranchSync.Session

/-!
# Responses that wait do not matter

A session only ever appends to its queue and never reads it. Responses that were queued earlier
stay in front of what an event adds and change neither what the event asks the storage nor what
comes of it, so a client can take them at any time.
-/

namespace BranchSync.Session

/-- The session with earlier responses in front of its queue. -/
def behind (s : Session) (earlier : List Response) : Session :=
  { s with responses := earlier ++ s.responses }

/-- Putting responses in front changes the queue alone. -/
theorem behind_mk (context : SyncContext) (depth : Nat) (push : Option PushExchange)
    (responses earlier : List Response) :
    behind ⟨context, depth, push, responses⟩ earlier =
      ⟨context, depth, push, earlier ++ responses⟩ := rfl

/-- The outcome of an event with earlier responses in front of the queue. -/
def outcomeBehind (earlier : List Response) (outcome : Except SyncError Unit × Session) :
    Except SyncError Unit × Session :=
  (outcome.1, outcome.2.behind earlier)

/-- A response is appended behind those that wait. -/
theorem enqueue_behind (s : Session) (earlier : List Response) (response : Response) :
    (s.behind earlier).enqueue response = (s.enqueue response).behind earlier := by
  simp [enqueue, behind]

/-- A top-level start tag does not notice responses that wait. -/
theorem dispatch_behind (s : Session) (earlier : List Response) (element : Element) :
    (s.behind earlier).dispatch element = outcomeBehind earlier <$> s.dispatch element := by
  unfold dispatch
  by_cases hpull : element.name = Vocabulary.syncPull
  · rw [if_pos hpull, if_pos hpull, map_bind]
    change handlePull s.context element >>= _ = _
    congr 1
    funext answer
    cases answer with
    | ok answer => simp [outcomeBehind, enqueue_behind]
    | error e => simp [outcomeBehind]
  · rw [if_neg hpull, if_neg hpull]
    by_cases hpush : element.name = Vocabulary.syncPush
    · rw [if_pos hpush, if_pos hpush]
      rcases hheader : PushExchange.awaitingHeader.header s.context.policy element with
        ⟨result, push⟩
      have hheader' : PushExchange.awaitingHeader.header (s.behind earlier).context.policy element =
          (result, push) := hheader
      rw [hheader']
      cases result with
      | ok done => simp [outcomeBehind, behind]
      | error e => simp [outcomeBehind]
    · rw [if_neg hpush, if_neg hpush]
      simp [outcomeBehind, behind]

/-- A start tag does not notice responses that wait. -/
theorem openTag_behind (s : Session) (earlier : List Response) (element : Element) :
    (s.behind earlier).openTag element = outcomeBehind earlier <$> s.openTag element := by
  obtain ⟨context, depth, push, responses⟩ := s
  cases push with
  | some push =>
    rw [behind_mk]
    simp only [openTag]
    by_cases hpack : depth + 1 = 2 ∧ element.name = Vocabulary.pack
    · rw [if_pos hpack, if_pos hpack, map_pure]
      rfl
    · rw [if_neg hpack, if_neg hpack, map_pure]
      rfl
  | none =>
    rw [behind_mk]
    simp only [openTag]
    by_cases htop : depth + 1 = 1
    · rw [if_pos htop, if_pos htop]
      exact dispatch_behind ⟨context, depth + 1, none, responses⟩ earlier element
    · rw [if_neg htop, if_neg htop, map_pure]
      rfl

/-- A text does not notice responses that wait. -/
theorem text_behind (s : Session) (earlier : List Response) (content : String) :
    (s.behind earlier).text content = (s.text content).behind earlier := by
  obtain ⟨context, depth, push, responses⟩ := s
  cases push with
  | none => rfl
  | some push =>
    rw [behind_mk]
    simp only [text]
    by_cases hdepth : depth = 2
    · rw [if_pos hdepth, if_pos hdepth, behind_mk]
    · rw [if_neg hdepth, if_neg hdepth, behind_mk]

/-- An end tag does not notice responses that wait. -/
theorem closeTag_behind (s : Session) (earlier : List Response) (name : String) :
    (s.behind earlier).closeTag name = outcomeBehind earlier <$> s.closeTag name := by
  obtain ⟨context, depth, push, responses⟩ := s
  cases push with
  | none =>
    rw [behind_mk]
    simp only [closeTag, map_pure]
    rfl
  | some push =>
    rw [behind_mk]
    simp only [closeTag]
    by_cases htop : depth - 1 = 0
    · rw [if_pos htop, if_pos htop, map_bind]
      congr 1
      funext answer
      cases answer <;> simp [outcomeBehind, behind, enqueue]
    · rw [if_neg htop, if_neg htop, map_pure]
      rfl

/-- An event does not notice responses that wait. -/
theorem handleEvent_behind (s : Session) (earlier : List Response) (event : ParseEvent) :
    (s.behind earlier).handleEvent event = outcomeBehind earlier <$> s.handleEvent event := by
  cases event with
  | openTag element => exact openTag_behind s earlier element
  | text content =>
    simp only [handleEvent, text_behind, map_pure]
    rfl
  | closeTag name => exact closeTag_behind s earlier name

end BranchSync.Session
