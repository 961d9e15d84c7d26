import BranchSync.Proofs.World.Interleaving

/-!
# The applied pushes of a branch form a chain

However the events of the sessions interleave, the pushes that are applied to one branch follow
one another: each starts at the tip that was acknowledged to the one before, the first at the tip
the branch had, and each is acknowledged the tip that it announced. The history of the branch
grows by exactly their packs, in this order. A push with an empty pack is a link that leads from
a tip to itself.
-/

namespace BranchSync

namespace AppliedPush

/-- Pushes that follow one another from a tip: each has a readable pack, starts where the one
before led and leads to the tip that was acknowledged. -/
def Chained (tip : Tip) : List AppliedPush → Prop
  | [] => True
  | p :: rest =>
    p.request.start = .tip tip ∧ p.request.last = .tip p.acknowledged ∧
      Pack.decode (p.request.pack.getD []) = .ok p.commits ∧ Chained p.acknowledged rest

/-- A push that extends a history is the first link of a chain from the tip of the history. -/
theorem Extends.chained_cons {p : AppliedPush} {history : List CommitId} {rest : List AppliedPush}
    (h : p.Extends history) (hrest : Chained (.ofHistory (history ++ p.commits)) rest) :
    Chained (.ofHistory history) (p :: rest) := by
  refine ⟨h.start_eq_ofHistory, h.last_eq, h.readable, ?_⟩
  rw [h.acknowledged_eq]
  exact hrest

end AppliedPush

namespace World

variable {ι : Type*} [DecidableEq ι]

/-- The pushes to one branch that are applied while the sessions handle events, in order. -/
def pushesTo (target : BranchRef) (w : World ι Accounts) (events : List (ι × ParseEvent)) :
    List AppliedPush :=
  (w.appliedPushes Accounts.answer events).filter fun p => p.request.target = target

/-- What one event does to one branch: nothing, or it applies a push that extends the history. -/
theorem pushesTo_cons_cases (target : BranchRef) (w : World ι Accounts) (i : ι)
    (event : ParseEvent) (rest : List (ι × ParseEvent)) :
    let next := (w.step Accounts.answer i event).2
    (w.pushesTo target ((i, event) :: rest) = next.pushesTo target rest ∧
      next.storage.history target = w.storage.history target) ∨
    ∃ p : AppliedPush, w.pushesTo target ((i, event) :: rest) = p :: next.pushesTo target rest ∧
      p.request.target = target ∧ p.Extends (w.storage.history target) ∧
      next.storage.history target = w.storage.history target ++ p.commits := by
  intro next
  rcases w.step_cases i event with ⟨hnone, hstorage⟩ | ⟨p, hsome, hextends, hhistory⟩
  · refine Or.inl ⟨?_, ?_⟩
    · simp [pushesTo, appliedPushes, hnone, next]
    · rw [show next.storage = w.storage from hstorage]
  · have hnext := hhistory target
    by_cases htarget : p.request.target = target
    · refine Or.inr ⟨p, ?_, htarget, ?_, ?_⟩
      · simp [pushesTo, appliedPushes, hsome, htarget, next]
      · rw [← htarget]
        exact hextends
      · rw [if_pos htarget.symm] at hnext
        exact hnext
    · refine Or.inl ⟨?_, ?_⟩
      · simp [pushesTo, appliedPushes, hsome, htarget, next]
      · rw [if_neg (Ne.symm htarget)] at hnext
        exact hnext

/-- The pushes that are applied to a branch form a chain from the tip that the branch had. -/
theorem chained_pushesTo (target : BranchRef) (w : World ι Accounts)
    (events : List (ι × ParseEvent)) :
    AppliedPush.Chained (.ofHistory (w.storage.history target)) (w.pushesTo target events) := by
  induction events generalizing w with
  | nil => exact trivial
  | cons e rest ih =>
    obtain ⟨i, event⟩ := e
    have hchain := ih (w.step Accounts.answer i event).2
    rcases pushesTo_cons_cases target w i event rest with
      ⟨hpushes, hhistory⟩ | ⟨p, hpushes, -, hextends, hhistory⟩
    · rw [hhistory] at hchain
      rw [hpushes]
      exact hchain
    · rw [hhistory] at hchain
      rw [hpushes]
      exact hextends.chained_cons hchain

/-- The history of a branch grows by the packs of the pushes that are applied to it. -/
theorem history_run (target : BranchRef) (w : World ι Accounts)
    (events : List (ι × ParseEvent)) :
    (w.run Accounts.answer events).storage.history target =
      w.storage.history target ++ (w.pushesTo target events).flatMap AppliedPush.commits := by
  induction events generalizing w with
  | nil => exact (List.append_nil _).symm
  | cons e rest ih =>
    obtain ⟨i, event⟩ := e
    rw [run, ih]
    rcases pushesTo_cons_cases target w i event rest with
      ⟨hpushes, hhistory⟩ | ⟨p, hpushes, -, -, hhistory⟩
    · rw [hpushes, hhistory]
    · rw [hpushes, hhistory, List.flatMap_cons, List.append_assoc]

/-- In every interleaving, the pushes that are applied to a branch form a chain from the tip that
the branch had, and the history of the branch grows by their packs in order and by nothing else. -/
theorem pushesTo_chained_and_history (w : World ι Accounts) (events : List (ι × ParseEvent))
    (target : BranchRef) :
    AppliedPush.Chained (.ofHistory (w.storage.history target)) (w.pushesTo target events) ∧
      (w.run Accounts.answer events).storage.history target =
        w.storage.history target ++ (w.pushesTo target events).flatMap AppliedPush.commits :=
  ⟨chained_pushesTo target w events, history_run target w events⟩

end World

end BranchSync
