import BranchSync.Proofs.Backend.CallLog
import BranchSync.Proofs.Push.Finalizing

/-!
# A push between two calls

A push that is finalized makes one call after the other, and other sessions may call the same
accounts in between. `PushStage` names the places at which it can stand, `Contender.rest` is what it
still has to do there, and `Advance` lists what the next call can be, where it leads and what it
leaves behind in accounts in memory. It is meant for pushes by others than the owner to accounts
that have a mailbox: these look for the mailbox, tell it the tip that they read back, and have it
made visible if it is new to the mailbox.
-/

namespace BranchSync

namespace BackendProgram

variable {α β σ : Type}

/-- The call that a program makes next. -/
def call? : BackendProgram α → Option BackendCall
  | .done _ => none
  | .call request _ => some request

/-- Make the next call of a program, and no more. -/
def advance (answer : Handler σ) : BackendProgram α → σ → BackendProgram α × σ
  | .done value, s => (.done value, s)
  | .call request next, s => (next (answer request s).1, (answer request s).2)

/-- After its first call, a sequence goes on with the reply. -/
theorem advance_ask_bind (answer : Handler σ) (request : BackendCall)
    (f : request.Reply → BackendProgram β) (s : σ) :
    (ask request >>= f).advance answer s = (f (answer request s).1, (answer request s).2) := rfl

end BackendProgram

/-- The accounts with another mailbox for an account. -/
def Accounts.putMailbox (a : Accounts) (user : String) (m : Mailbox) : Accounts :=
  { a with mailboxes := a.mailboxes.insert user m }

/-- Where a push stands between two calls. -/
inductive PushStage where
  | lookingUp
  | checking (expected : Tip)
  | importing
  | readingBack
  | seekingMailbox (tip : Tip)
  | telling (tip : Tip)
  | committing (tip : Tip)
  | answered (answer : PushAnswer)

/-- The tip that a push is acknowledged with, if it was applied. -/
def PushAnswer.applied? (answer : PushAnswer) : Option Tip :=
  match answer.outcome with
  | .applied tip => some tip
  | .failed _ => none

namespace PushStage

/-- The tip that a push has read back after its import. -/
def seen? : PushStage → Option Tip
  | .seekingMailbox tip => some tip
  | .telling tip => some tip
  | .committing tip => some tip
  | .answered answer => answer.applied?
  | _ => none

/-- The tip that a push has told the mailbox. -/
def told? : PushStage → Option Tip
  | .committing tip => some tip
  | .answered answer => answer.applied?
  | _ => none

/-- Nothing is told before it is read back. -/
theorem told?_of_seen? {stage : PushStage} (h : stage.seen? = none) : stage.told? = none := by
  cases stage with
  | committing tip => cases h
  | answered answer => exact h
  | _ => rfl

end PushStage

/-- A push that is finalized for a session. -/
structure Contender where
  request : PushRequest
  context : SyncContext
  fault : Option ProtocolError

namespace Contender

open BackendProgram (ask)
open PushRequest (refuse notifyOwner)

/-- The whole of a push. -/
def finalize (c : Contender) : BackendProgram PushAnswer :=
  c.request.finalize c.context c.fault

/-- What a push still has to do at a stage. -/
def rest (c : Contender) : PushStage → BackendProgram PushAnswer
  | .lookingUp => do
    if ← ask (.repository c.request.target.user) then
      if c.fault.isSome then pure (refuse .importFailed)
      else if c.context.policy.verifyStartTip then do
        if ← c.request.startIsCurrent then c.request.transfer c.context.principal
        else pure (refuse .importFailed)
      else c.request.transfer c.context.principal
    else pure (refuse .noSuchBranch)
  | .checking expected => do
    let reply ← ask (.tip c.request.target.user c.request.target.branch)
    let current := match reply with
      | .error _ => false
      | .ok current => decide (current = expected)
    if current then c.request.transfer c.context.principal else pure (refuse .importFailed)
  | .importing => c.request.transfer c.context.principal
  | .readingBack => do
    match ← ask (.tip c.request.target.user c.request.target.branch) with
    | .error _ => pure (refuse .importFailed)
    | .ok tip =>
      if c.context.principal.owns c.request.target.user then pure (c.request.accept tip)
      else do
        notifyOwner c.request.target tip
        pure (c.request.accept tip)
  | .seekingMailbox tip => do
    notifyOwner c.request.target tip
    pure (c.request.accept tip)
  | .telling tip => do
    match ← ask (.updateChannelTip c.request.target.user c.request.target.branch tip.toHex) with
    | .ok true =>
      let _ ← ask (.commitMailbox c.request.target.user)
      pure (c.request.accept tip)
    | _ => pure (c.request.accept tip)
  | .committing tip => do
    let _ ← ask (.commitMailbox c.request.target.user)
    pure (c.request.accept tip)
  | .answered answer => pure answer

/-- A push is refused before its first call, or it starts by looking up the repository. -/
theorem exists_finalize_eq (c : Contender) :
    ∃ stage : PushStage, c.finalize = c.rest stage ∧ stage.seen? = none ∧ stage.told? = none := by
  unfold finalize PushRequest.finalize
  by_cases haccess : c.context.principal.canAccess c.request.target = true
  · rw [if_pos haccess]
    exact ⟨.lookingUp, rfl, rfl, rfl⟩
  · rw [if_neg haccess]
    exact ⟨.answered (refuse .accessDenied), rfl, rfl, rfl⟩

/-- The next call of a push whose account has the mailbox `m`, with the stage that it leads to and
the accounts that it leaves behind. -/
inductive Advance (target : BranchRef) (m : Mailbox) (a : Accounts) :
    PushStage → BackendCall → PushStage → Accounts → Prop
  /-- The push is refused, or it comes closer to having read the tip back. -/
  | quiet {stage stage' : PushStage} {call : BackendCall} {a' : Accounts}
      (htold : stage.told? = none) (hcall : call.kind ≠ .updateChannelTip)
      (hseen : stage'.seen? = none) (hmailboxes : a'.mailboxes = a.mailboxes) :
      Advance target m a stage call stage' a'
  /-- The tip is read back. -/
  | readBack :
      Advance target m a .readingBack (.tip target.user target.branch)
        (.seekingMailbox (.ofHistory (a.history target))) a
  /-- The mailbox is found. -/
  | found (tip : Tip) :
      Advance target m a (.seekingMailbox tip) (.mailbox target.user) (.telling tip) a
  /-- The tip is new to the mailbox. -/
  | told (tip : Tip) (hnew : m.pending.get? target.branch ≠ some tip.toHex) :
      Advance target m a (.telling tip) (.updateChannelTip target.user target.branch tip.toHex)
        (.committing tip) (a.putMailbox target.user (m.updateChannelTip target.branch tip.toHex).2)
  /-- The mailbox was told the tip before. -/
  | retold (tip : Tip) (answer : PushAnswer) (hanswer : answer.applied? = some tip)
      (hknown : m.pending.get? target.branch = some tip.toHex) :
      Advance target m a (.telling tip) (.updateChannelTip target.user target.branch tip.toHex)
        (.answered answer) (a.putMailbox target.user (m.updateChannelTip target.branch tip.toHex).2)
  /-- What the mailbox was told is made visible. -/
  | committed (tip : Tip) (answer : PushAnswer) (hanswer : answer.applied? = some tip) :
      Advance target m a (.committing tip) (.commitMailbox target.user) (.answered answer)
        (a.putMailbox target.user m.commit)

/-- A tip that a push goes on with is the one that it went on with before, or is read back now. -/
theorem Advance.seen?_cases {target : BranchRef} {m : Mailbox} {a a' : Accounts}
    {stage stage' : PushStage} {call : BackendCall} (h : Advance target m a stage call stage' a')
    {tip : Tip} (hseen : stage'.seen? = some tip) :
    stage.seen? = some tip ∨ stage = .readingBack ∧ tip = .ofHistory (a.history target) := by
  cases h with
  | quiet htold hcall hnone hmailboxes =>
    rw [hnone] at hseen
    cases hseen
  | readBack => exact Or.inr ⟨rfl, (Option.some.inj hseen).symm⟩
  | found tip => exact Or.inl hseen
  | told tip hnew => exact Or.inl hseen
  | retold tip answer hanswer hknown => exact Or.inl (hanswer.symm.trans hseen)
  | committed tip answer hanswer => exact Or.inl (hanswer.symm.trans hseen)

/-- At a stage, the call that comes next leads to another stage as `Advance` says. -/
def Advances (c : Contender) (m : Mailbox) (a : Accounts) (stage : PushStage) : Prop :=
  ∃ call stage' a', (c.rest stage).call? = some call ∧
    (c.rest stage).advance Accounts.answer a = (c.rest stage', a') ∧
    Advance c.request.target m a stage call stage' a'

variable {c : Contender} {m : Mailbox} {a : Accounts}

/-- A start that names a tip is checked by reading the tip of the branch. -/
theorem rest_checking {c : Contender} {expected : Tip} (hstart : c.request.start = .tip expected) :
    c.rest (.checking expected) = (do
      if ← c.request.startIsCurrent then c.request.transfer c.context.principal
      else pure (refuse .importFailed)) := by
  rw [PushRequest.startIsCurrent, hstart]
  dsimp only
  rw [rest, bind_assoc]
  congr 1
  funext reply
  cases reply <;> rfl

/-- A call that leads to a stage before the tip was read back, or to a refusal, and tells the
mailbox nothing. -/
theorem advances_of_quiet {stage stage' : PushStage} {call : BackendCall} {a' : Accounts}
    (hcall : (c.rest stage).call? = some call)
    (hnext : (c.rest stage).advance Accounts.answer a = (c.rest stage', a'))
    (htold : stage.told? = none) (hkind : call.kind ≠ .updateChannelTip)
    (hseen : stage'.seen? = none) (hmailboxes : a'.mailboxes = a.mailboxes) :
    c.Advances m a stage :=
  ⟨call, stage', a', hcall, hnext, .quiet htold hkind hseen hmailboxes⟩

/-- After the repository was looked up, the push is refused, its start is checked, or its pack is
imported. -/
theorem advances_lookingUp (c : Contender) (m : Mailbox) (a : Accounts) :
    c.Advances m a .lookingUp := by
  obtain ⟨stage', hnext, hseen⟩ : ∃ stage' : PushStage,
      (c.rest .lookingUp).advance Accounts.answer a = (c.rest stage', a) ∧ stage'.seen? = none := by
    rw [rest, BackendProgram.advance_ask_bind]
    change ∃ stage',
      (ite ((a.repositories.get? c.request.target.user).isSome = true) _ _, a) = _ ∧ _
    by_cases hfound : (a.repositories.get? c.request.target.user).isSome = true
    · rw [if_pos hfound]
      by_cases hfault : c.fault.isSome = true
      · rw [if_pos hfault]
        exact ⟨.answered (refuse .importFailed), rfl, rfl⟩
      · rw [if_neg hfault]
        by_cases hverify : c.context.policy.verifyStartTip = true
        · rw [if_pos hverify]
          cases hstart : c.request.start with
          | token text =>
            rw [PushRequest.startIsCurrent, hstart]
            exact ⟨.importing, rfl, rfl⟩
          | tip expected => exact ⟨.checking expected, by rw [rest_checking hstart], rfl⟩
        · rw [if_neg hverify]
          exact ⟨.importing, rfl, rfl⟩
    · rw [if_neg hfound]
      exact ⟨.answered (refuse .noSuchBranch), rfl, rfl⟩
  exact advances_of_quiet rfl hnext rfl (fun h => by cases h) hseen rfl

/-- After its start was checked, the push is refused or its pack is imported. -/
theorem advances_checking (c : Contender) (m : Mailbox) (a : Accounts) (expected : Tip) :
    c.Advances m a (.checking expected) := by
  obtain ⟨stage', hnext, hseen⟩ : ∃ stage' : PushStage,
      (c.rest (.checking expected)).advance Accounts.answer a = (c.rest stage', a) ∧
        stage'.seen? = none := by
    rw [rest, BackendProgram.advance_ask_bind]
    dsimp only
    rcases (Accounts.answer (.tip c.request.target.user c.request.target.branch) a).1 with
      e | current
    · exact ⟨.answered (refuse .importFailed), rfl, rfl⟩
    · by_cases hcurrent : current = expected
      · exact ⟨.importing, by simp [hcurrent, rest]; rfl, rfl⟩
      · exact ⟨.answered (refuse .importFailed), by simp [hcurrent, rest]; rfl, rfl⟩
  exact advances_of_quiet rfl hnext rfl (fun h => by cases h) hseen rfl

/-- After the import, the push is refused or the tip is read back. -/
theorem advances_importing (c : Contender) (m : Mailbox) (a : Accounts) :
    c.Advances m a .importing := by
  obtain ⟨stage', hnext, hseen⟩ : ∃ stage' : PushStage,
      (c.rest .importing).advance Accounts.answer a =
          (c.rest stage',
            (Accounts.answer (.importPack c.request.target.user c.request.target.branch
              (c.request.pack.getD []) c.request.start c.request.last) a).2) ∧
        stage'.seen? = none := by
    rw [rest, PushRequest.transfer, BackendProgram.advance_ask_bind]
    rcases (Accounts.answer (.importPack c.request.target.user c.request.target.branch
      (c.request.pack.getD []) c.request.start c.request.last) a).1 with e | ⟨⟩
    · exact ⟨.answered (refuse .importFailed), rfl, rfl⟩
    · refine ⟨.readingBack, Prod.ext ?_ rfl, rfl⟩
      rw [rest]
      dsimp only
      congr 1
      funext reply
      cases reply <;> rfl
  refine advances_of_quiet rfl hnext rfl (fun h => by cases h) hseen ?_
  simp only [Accounts.answer]
  split <;> rfl

/-- After the tip was read back, the mailbox is looked for. -/
theorem advances_readingBack (howns : c.context.principal.owns c.request.target.user = false)
    (m : Mailbox) (a : Accounts) : c.Advances m a .readingBack := by
  cases hr : a.repositories.get? c.request.target.user with
  | none =>
    have hreply : (Accounts.answer (.tip c.request.target.user c.request.target.branch) a).1 =
        .error (Accounts.noAccount c.request.target.user) := by
      simp [Accounts.answer, Accounts.withRepository, hr]
    have hnext : (c.rest .readingBack).advance Accounts.answer a =
        (c.rest (.answered (refuse .importFailed)), a) := by
      rw [rest, BackendProgram.advance_ask_bind, hreply]
      rfl
    exact advances_of_quiet rfl hnext rfl (fun h => by cases h) rfl rfl
  | some r =>
    have hreply : (Accounts.answer (.tip c.request.target.user c.request.target.branch) a).1 =
        .ok (.ofHistory (a.history c.request.target)) := by
      simp [Accounts.answer, Accounts.withRepository, hr, Accounts.history_eq hr, Repository.tip]
    refine ⟨_, .seekingMailbox (.ofHistory (a.history c.request.target)), a, rfl, ?_, .readBack⟩
    rw [rest, BackendProgram.advance_ask_bind, hreply]
    dsimp only
    rw [howns]
    rfl

/-- When the mailbox is found, it is told the tip. -/
theorem advances_seekingMailbox (hm : a.mailboxes.get? c.request.target.user = some m) (tip : Tip) :
    c.Advances m a (.seekingMailbox tip) := by
  refine ⟨_, .telling tip, a, rfl, ?_, .found tip⟩
  rw [rest, PushRequest.notifyOwner, bind_assoc, BackendProgram.advance_ask_bind]
  have hfound : (Accounts.answer (.mailbox c.request.target.user) a).1 = true := by
    simp [Accounts.answer, hm]
  rw [hfound]
  refine Prod.ext ?_ rfl
  simp only [if_true, rest, bind_assoc]
  congr 1
  funext reply
  rcases reply with e | changed
  · rfl
  · cases changed <;> rfl

/-- When the mailbox was told the tip, this is made visible unless it was known. -/
theorem advances_telling (hm : a.mailboxes.get? c.request.target.user = some m) (tip : Tip) :
    c.Advances m a (.telling tip) := by
  have hanswer : Accounts.answer (.updateChannelTip c.request.target.user c.request.target.branch
      tip.toHex) a =
      (.ok (m.pending.get? c.request.target.branch != some tip.toHex),
        a.putMailbox c.request.target.user
          (m.updateChannelTip c.request.target.branch tip.toHex).2) := by
    simp [Accounts.answer, hm, Mailbox.updateChannelTip, Accounts.putMailbox]
  by_cases hknown : m.pending.get? c.request.target.branch = some tip.toHex
  · refine ⟨_, .answered (c.request.accept tip), _, rfl, ?_, .retold tip _ rfl hknown⟩
    rw [rest, BackendProgram.advance_ask_bind, hanswer, hknown]
    simp only [bne_self_eq_false]
    rfl
  · have hnew : (m.pending.get? c.request.target.branch != some tip.toHex) = true :=
      bne_iff_ne.mpr hknown
    refine ⟨_, .committing tip, _, rfl, ?_, .told tip hknown⟩
    rw [rest, BackendProgram.advance_ask_bind, hanswer, hnew]
    rfl

/-- When what the mailbox was told is made visible, the push is answered. -/
theorem advances_committing (hm : a.mailboxes.get? c.request.target.user = some m) (tip : Tip) :
    c.Advances m a (.committing tip) := by
  have hanswer : (Accounts.answer (.commitMailbox c.request.target.user) a).2 =
      a.putMailbox c.request.target.user m.commit := by
    simp [Accounts.answer, hm, Accounts.putMailbox]
  refine ⟨_, .answered (c.request.accept tip), _, rfl, ?_, .committed tip _ rfl⟩
  rw [rest, BackendProgram.advance_ask_bind, hanswer]
  rfl

/-- A push that has nothing left to do has its answer. -/
theorem eq_answered_of_rest {stage : PushStage} {answer : PushAnswer}
    (h : c.rest stage = .done answer) : stage = .answered answer := by
  cases stage with
  | answered given => rw [BackendProgram.done.inj h]
  | lookingUp => cases h
  | checking expected => cases h
  | importing => cases h
  | readingBack => cases h
  | seekingMailbox tip => cases h
  | telling tip => cases h
  | committing tip => cases h

/-- A push has its answer, or its next call leads to another stage. -/
theorem answered_or_advances (howns : c.context.principal.owns c.request.target.user = false)
    (hm : a.mailboxes.get? c.request.target.user = some m) (stage : PushStage) :
    (∃ answer, stage = .answered answer) ∨ c.Advances m a stage := by
  cases stage with
  | lookingUp => exact Or.inr (advances_lookingUp c m a)
  | checking expected => exact Or.inr (advances_checking c m a expected)
  | importing => exact Or.inr (advances_importing c m a)
  | readingBack => exact Or.inr (advances_readingBack howns m a)
  | seekingMailbox tip => exact Or.inr (advances_seekingMailbox hm tip)
  | telling tip => exact Or.inr (advances_telling hm tip)
  | committing tip => exact Or.inr (advances_committing hm tip)
  | answered answer => exact Or.inl ⟨answer, rfl⟩

end Contender

end BranchSync
