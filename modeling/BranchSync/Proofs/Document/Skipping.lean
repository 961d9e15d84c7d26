import BranchSync.Proofs.Document.Tree
import BranchSync.Proofs.Session.Events

/-!
# Skipped parts of a document

A session does not notice what is nested inside an element that was answered by its start tag,
and while a push is in flight it does not notice what is nested inside a child of a child. Such
a part of a document is well nested, so its end tags lead back to the depth where it began.
-/

namespace BranchSync.Session

/-- A session skips what is nested so deep that it can belong neither to a request of its own
nor to the payload of the push in flight. -/
def Skips (s : Session) : Prop :=
  (s.push = none ∧ 1 ≤ s.depth) ∨ 3 ≤ s.depth

/-- A skipped text changes nothing. -/
theorem Skips.handleEvent_text {s : Session} (h : s.Skips) (content : String) :
    s.handleEvent (.text content) = pure (.ok (), s) := by
  have hkeep : s.text content = s := by
    unfold Session.text
    rcases h with ⟨hpush, -⟩ | hdepth
    · rw [hpush]
    · split
      · rw [if_neg (by omega)]
      · rfl
  rw [handleEvent, hkeep]

/-- A skipped start tag only deepens the session. -/
theorem Skips.handleEvent_openTag {s : Session} (h : s.Skips) (head : Element) :
    s.handleEvent (.openTag head) = pure (.ok (), { s with depth := s.depth + 1 }) := by
  unfold handleEvent openTag
  rcases h with ⟨hpush, hdepth⟩ | hdepth
  · simp only [hpush]
    rw [if_neg (by omega)]
  · dsimp only
    split
    · rw [if_neg (by omega)]
    · rw [if_neg (by omega)]

/-- The end tag that belongs to a skipped start tag restores the session. -/
theorem Skips.handleEvent_closeTag {s : Session} (h : s.Skips) (name : String) :
    { s with depth := s.depth + 1 }.handleEvent (.closeTag name) = pure (.ok (), s) := by
  obtain ⟨context, depth, push, responses⟩ := s
  cases push with
  | none => rfl
  | some push =>
    have hdepth : 3 ≤ depth := by simpa [Skips] using h
    simp only [handleEvent, closeTag, Nat.add_sub_cancel]
    rw [if_neg (by omega), if_neg (by omega)]

/-- Skipping goes on below a skipped start tag. -/
theorem Skips.deeper {s : Session} (h : s.Skips) : { s with depth := s.depth + 1 }.Skips := by
  rcases h with ⟨hpush, -⟩ | hdepth
  · exact Or.inl ⟨hpush, Nat.le_add_left _ _⟩
  · exact Or.inr (Nat.le_succ_of_le hdepth)

mutual

/-- A node below the point where a session skips leaves it as it was. -/
theorem Skips.handleEvents_node {s : Session} (h : s.Skips) :
    (node : Node) → s.handleEvents node.events = pure (.ok (), s)
  | .text content => by
    rw [Node.events, handleEvents_cons_of_pure (h.handleEvent_text content)]
    rfl
  | .element head children => by
    rw [Node.events, handleEvents_cons_of_pure (h.handleEvent_openTag head),
      handleEvents_append_of_pure (h.deeper.handleEvents_nodes children),
      handleEvents_cons_of_pure (h.handleEvent_closeTag head.name)]
    rfl

/-- Nodes below the point where a session skips leave it as it was. -/
theorem Skips.handleEvents_nodes {s : Session} (h : s.Skips) :
    (nodes : List Node) → s.handleEvents (Node.eventsOf nodes) = pure (.ok (), s)
  | [] => rfl
  | node :: rest => by
    rw [Node.eventsOf, handleEvents_append_of_pure (h.handleEvents_node node)]
    exact h.handleEvents_nodes rest

end

end BranchSync.Session
