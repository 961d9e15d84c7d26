import BranchSync.Proofs.World.PushChain

/-!
# A start serves one push that carries commits

Nothing records which starts were used. A tip is spent once its first occurrence lies before the
end of the history; since a history only grows, it stays spent, also when later packs repeat old
commits or end in the start itself. A push from a spent start is refused whatever it carries, so a
push that is sent again after it was applied is answered as a failed import and leaves no trace.

Empty packs do not spend their start: any number of them can be applied at the same tip.
-/

namespace BranchSync

open Repository (Spent)

/-- A push that carries commits spends its start. -/
theorem AppliedPush.Extends.spent {p : AppliedPush} {history : List CommitId} {tip : Tip}
    (h : p.Extends history) (hcommits : p.commits ≠ []) (hstart : p.request.start = .tip tip) :
    Spent (history ++ p.commits) tip := by
  refine ⟨history.length, ?_, Repository.position?_append (h.position?_eq hstart) p.commits⟩
  rw [List.length_append]
  have hpos := List.length_pos_iff.mpr hcommits
  omega

/-- A push from a spent start does not extend the history. -/
theorem AppliedPush.Extends.not_spent {p : AppliedPush} {history : List CommitId} {tip : Tip}
    (h : p.Extends history) (hstart : p.request.start = .tip tip) : ¬ Spent history tip := by
  intro hspent
  exact hspent.position?_ne (h.position?_eq hstart)

/-- Over accounts in memory, an authorized push from a spent start is a failed import and changes
nothing, whatever its payload was. -/
theorem PushRequest.run_finalize_of_spent {a : Accounts} {request : PushRequest} {tip : Tip}
    (hstart : request.start = .tip tip) (hspent : Spent (a.history request.target) tip)
    {context : SyncContext} (haccess : context.principal.canAccess request.target = true)
    (fault : Option ProtocolError) :
    (request.finalize context fault).run Accounts.answer a = (refuse .importFailed, a) := by
  rw [run_finalize, if_pos haccess]
  cases hr : a.repositories.get? request.target.user with
  | none => exact absurd (by simp [Accounts.history, hr]) hspent.ne_nil
  | some r =>
    rw [Accounts.history_eq hr] at hspent
    obtain ⟨e, himport⟩ := hspent.importPack_error (request.pack.getD []) request.last
    rw [← hstart] at himport
    cases fault with
    | none => simp [himport]
    | some fault => simp

namespace World

variable {ι : Type*} [DecidableEq ι]

/-- What is spent on a branch stays spent in every run. -/
theorem spent_run {target : BranchRef} {w : World ι Accounts} {tip : Tip}
    (h : Spent (w.storage.history target) tip) (events : List (ι × ParseEvent)) :
    Spent ((w.run Accounts.answer events).storage.history target) tip := by
  rw [history_run]
  exact h.append _

/-- After a run, the start of every applied push that carried commits is spent. -/
theorem spent_of_mem_pushesTo {target : BranchRef} {w : World ι Accounts}
    {events : List (ι × ParseEvent)} {p : AppliedPush} (hp : p ∈ w.pushesTo target events)
    (hcommits : p.commits ≠ []) :
    ∃ tip, p.request.start = .tip tip ∧
      Spent ((w.run Accounts.answer events).storage.history target) tip := by
  induction events generalizing w with
  | nil => cases hp
  | cons e rest ih =>
    obtain ⟨i, event⟩ := e
    rw [run]
    rcases pushesTo_cons_cases target w i event rest with
      ⟨hpushes, -⟩ | ⟨q, hpushes, -, hextends, hhistory⟩
    · rw [hpushes] at hp
      exact ih hp
    · rw [hpushes] at hp
      rcases List.mem_cons.mp hp with rfl | hrest
      · obtain ⟨tip, hstart, -⟩ := hextends.start_eq
        refine ⟨tip, hstart, spent_run ?_ rest⟩
        rw [hhistory]
        exact hextends.spent hcommits hstart
      · exact ih hrest

/-- The applied pushes to a branch that start from a tip and carry commits. -/
def pushesFrom (start : Tip) (target : BranchRef) (w : World ι Accounts)
    (events : List (ι × ParseEvent)) : List AppliedPush :=
  (w.pushesTo target events).filter fun p => p.request.start = .tip start ∧ p.commits ≠ []

/-- No push is applied from a spent start. -/
theorem pushesFrom_of_spent {start : Tip} {target : BranchRef} {w : World ι Accounts}
    (h : Spent (w.storage.history target) start) (events : List (ι × ParseEvent)) :
    w.pushesFrom start target events = [] := by
  induction events generalizing w with
  | nil => rfl
  | cons e rest ih =>
    obtain ⟨i, event⟩ := e
    rw [pushesFrom]
    rcases pushesTo_cons_cases target w i event rest with
      ⟨hpushes, hhistory⟩ | ⟨p, hpushes, -, hextends, hhistory⟩
    · rw [← hhistory] at h
      rw [hpushes]
      exact ih h
    · have hother : ¬ (p.request.start = .tip start ∧ p.commits ≠ []) := by
        intro hfrom
        obtain ⟨hstart, -⟩ := hfrom
        exact hextends.not_spent hstart h
      have hnext := h.append p.commits
      rw [← hhistory] at hnext
      rw [hpushes, List.filter_cons_of_neg (by simpa using hother)]
      exact ih hnext

/-- At most one push from a tip that carries commits is applied to a branch. -/
theorem length_pushesFrom_le_one (start : Tip) (target : BranchRef) (w : World ι Accounts)
    (events : List (ι × ParseEvent)) : (w.pushesFrom start target events).length ≤ 1 := by
  induction events generalizing w with
  | nil => exact Nat.zero_le 1
  | cons e rest ih =>
    obtain ⟨i, event⟩ := e
    rw [pushesFrom]
    rcases pushesTo_cons_cases target w i event rest with
      ⟨hpushes, -⟩ | ⟨p, hpushes, -, hextends, hhistory⟩
    · rw [hpushes]
      exact ih _
    · rw [hpushes]
      by_cases hfrom : p.request.start = .tip start ∧ p.commits ≠ []
      · -- the push spends its start, so it stays the only one
        have hspent := hextends.spent hfrom.2 hfrom.1
        rw [← hhistory] at hspent
        rw [List.filter_cons_of_pos (by simpa using hfrom)]
        have hnone := pushesFrom_of_spent hspent rest
        rw [pushesFrom] at hnone
        rw [hnone]
        exact Nat.le_refl 1
      · rw [List.filter_cons_of_neg (by simpa using hfrom)]
        exact ih _

/-- In every interleaving, at most one push that carries commits is applied from each start, and
whoever may touch the branch and closes a push from the same start afterwards, in whatever session
and however it got there, is told that the import failed, without a trace in the storage. -/
theorem pushesFrom_le_one_and_resend_refused (w : World ι Accounts)
    (events : List (ι × ParseEvent)) (target : BranchRef) :
    (∀ start : Tip, (w.pushesFrom start target events).length ≤ 1) ∧
      ∀ p ∈ w.pushesTo target events, p.commits ≠ [] →
        ∀ (later : List (ι × ParseEvent)) (i : ι) (event : ParseEvent) (request : PushRequest)
          (fault : Option ProtocolError),
          let after := w.run Accounts.answer (events ++ later)
          (after.sessions i).closing? event = some (request, fault) →
          (after.sessions i).context.principal.canAccess target = true →
          request.target = target → request.start = p.request.start →
          after.step Accounts.answer i event =
            (.ok (), ⟨after.storage, Function.update after.sessions i
              ((after.sessions i).closed (.error Vocabulary.importFailed))⟩) := by
  refine ⟨fun start => length_pushesFrom_le_one start target w events, ?_⟩
  intro p hp hcommits later i event request fault after hclosing haccess htarget hstart
  obtain ⟨tip, htip, hspent⟩ := spent_of_mem_pushesTo hp hcommits
  have hspent' : Spent (after.storage.history request.target) tip := by
    rw [htarget, show after = _ from run_append Accounts.answer w events later]
    exact spent_run hspent later
  rw [← htarget] at haccess
  rw [← hstart] at htip
  rw [step_of_closing Accounts.answer hclosing,
    PushRequest.run_finalize_of_spent htip hspent' haccess fault]
  rfl

/-- A push of one commit to a new branch. -/
def firstPush : PushRequest :=
  ⟨⟨"alice", "main"⟩, .tip .empty, .tip (.commit ⟨List.replicate 20 7, rfl⟩),
    some (List.replicate 20 7)⟩

/-- Two sessions of the owner of an account, about to close the same push. -/
def race : World Bool Accounts where
  storage := Accounts.empty.addAccount "alice"
  sessions _ :=
    ⟨⟨.account "alice", .default⟩, 1, some (.awaitingPayload firstPush ⟨none, .done⟩ none), []⟩

/-- The session that closes the push second is refused. -/
theorem race_second_refused :
    let after := race.run Accounts.answer [(false, .closeTag Vocabulary.syncPush)]
    after.step Accounts.answer true (.closeTag Vocabulary.syncPush) =
      (.ok (), ⟨after.storage, Function.update after.sessions true
        ((after.sessions true).closed (.error Vocabulary.importFailed))⟩) :=
  (pushesFrom_le_one_and_resend_refused race [(false, .closeTag Vocabulary.syncPush)]
    ⟨"alice", "main"⟩).2 ⟨firstPush, .commit ⟨List.replicate 20 7, rfl⟩⟩ (by decide) (by decide) []
    true (.closeTag Vocabulary.syncPush) firstPush none rfl rfl rfl rfl

end World

end BranchSync
