import BranchSync.Proofs.Document.Tree
import BranchSync.Proofs.Identifier.References
import BranchSync.Proofs.Session.Atomicity
import BranchSync.Proofs.World.Interleaving

/-!
# What the owner of an account is told

The owner is told of a push through the mailbox of the account: the tip is recorded as pending, and
what is pending is made visible only when the recorded tip is a new one. That is enough as long as
nothing is pending that is not visible. The invariant is that the two tables of a mailbox agree
between events, and that they show, for every branch, the tip of the last push by anyone but the
owner since the mailbox was registered. It survives accounts that are registered again, histories
that are replaced, pushes by the owner and pushes that fail.
-/

namespace BranchSync

/-- Telling a mailbox that has nothing pending a tip leaves nothing pending. -/
theorem Mailbox.announce_settled {m : Mailbox} (h : m.committed = m.pending) (branch tip : String) :
    (m.announce branch tip).committed = (m.announce branch tip).pending := by
  unfold Mailbox.announce
  cases hchanged : (m.updateChannelTip branch tip).1 with
  | true => rfl
  | false =>
    -- the recorded tip was there already, and so it was visible
    have hsame : m.pending.get? branch = some tip := by simpa [updateChannelTip] using hchanged
    simp [updateChannelTip, Table.insert_eq_self hsame, h]

/-- A mailbox that has nothing pending shows the tip that it is told. -/
theorem Mailbox.channelTip_announce {m : Mailbox} (h : m.committed = m.pending)
    (branch tip other : String) :
    (m.announce branch tip).channelTip other =
      if branch = other then some tip else m.channelTip other := by
  have hpending : (m.announce branch tip).pending = m.pending.insert branch tip := by
    unfold Mailbox.announce
    split <;> rfl
  rw [channelTip, announce_settled h, hpending, Table.get?_insert, channelTip, h]

/-- What concerns the owner of an account. -/
inductive Notice where
  /-- The account was registered, with a new mailbox. -/
  | registered (user : String)
  /-- A push by a principal was applied. -/
  | pushed (principal : Principal) (push : AppliedPush)

/-- The tip that was acknowledged to the last push to a branch by anyone but the owner, since the
account was registered for the last time. The notices are given newest first. -/
def announced? (target : BranchRef) : List Notice → Option Tip
  | [] => none
  | .registered user :: earlier => if user = target.user then none else announced? target earlier
  | .pushed principal push :: earlier =>
    if push.request.target = target ∧ principal.owns target.user = false then
      some push.acknowledged
    else announced? target earlier

/-- A mailbox of an account has nothing pending and shows what was announced. -/
structure Mailbox.Informed (m : Mailbox) (user : String) (notices : List Notice) : Prop where
  settled : m.committed = m.pending
  channelTip_eq : ∀ branch,
    m.channelTip branch = (announced? ⟨user, branch⟩ notices).map Tip.toHex

/-- Every registered mailbox has nothing pending and shows what was announced. -/
def Accounts.Informed (a : Accounts) (notices : List Notice) : Prop :=
  ∀ user m, a.mailboxes.get? user = some m → m.Informed user notices

namespace Mailbox.Informed

variable {m : Mailbox} {user : String} {notices : List Notice}

/-- An account that is registered has a mailbox that shows nothing. -/
theorem empty (user : String) (notices : List Notice) :
    Mailbox.empty.Informed user (.registered user :: notices) := by
  refine ⟨rfl, ?_⟩
  intro branch
  rw [announced?, if_pos rfl]
  rfl

/-- The mailbox of an account does not notice that another account is registered. -/
theorem registered (h : m.Informed user notices) {other : String} (hother : other ≠ user) :
    m.Informed user (.registered other :: notices) := by
  refine ⟨h.settled, ?_⟩
  intro branch
  rw [announced?, if_neg hother, h.channelTip_eq]

/-- A push by anyone but the owner shows in the mailbox that is told. -/
theorem announce (h : m.Informed user notices) {principal : Principal} (push : AppliedPush)
    (huser : push.request.target.user = user) (howns : principal.owns user = false) :
    (m.announce push.request.target.branch push.acknowledged.toHex).Informed user
      (.pushed principal push :: notices) := by
  refine ⟨Mailbox.announce_settled h.settled _ _, ?_⟩
  intro branch
  rw [Mailbox.channelTip_announce h.settled, announced?, h.channelTip_eq]
  have htarget : push.request.target = ⟨user, branch⟩ ↔ push.request.target.branch = branch := by
    rw [← huser]
    exact ⟨fun h => congrArg BranchRef.branch h, fun h => congrArg (BranchRef.mk _) h⟩
  by_cases hbranch : push.request.target.branch = branch
  · rw [if_pos hbranch, if_pos ⟨htarget.mpr hbranch, howns⟩]
    rfl
  · rw [if_neg hbranch, if_neg fun hpush => hbranch (htarget.mp hpush.1)]

/-- A push to another account or by the owner shows in no mailbox of the owner. -/
theorem pushed (h : m.Informed user notices) {principal : Principal} {push : AppliedPush}
    (hpush : ¬ (push.request.target.user = user ∧
      principal.owns push.request.target.user = false)) :
    m.Informed user (.pushed principal push :: notices) := by
  refine ⟨h.settled, ?_⟩
  intro branch
  rw [announced?, if_neg, h.channelTip_eq]
  intro hannounced
  obtain ⟨htarget, howns⟩ := hannounced
  rw [htarget] at hpush
  exact hpush ⟨rfl, howns⟩

end Mailbox.Informed

namespace World

variable {ι : Type*} [DecidableEq ι]

/-- What can happen to a server that keeps its accounts in memory. -/
inductive Act (ι : Type*) where
  /-- An account is registered, again perhaps, with an empty repository and an empty mailbox. -/
  | addAccount (user : String)
  /-- An account gets an empty repository and keeps its mailbox, if it has one. -/
  | addRepository (user : String)
  /-- The history of a branch is replaced. -/
  | setHistory (target : BranchRef) (history : List CommitId)
  /-- A session handles an event. -/
  | event (i : ι) (event : ParseEvent)

/-- The world after an act. -/
def act (w : World ι Accounts) : Act ι → World ι Accounts
  | .addAccount user => { w with storage := w.storage.addAccount user }
  | .addRepository user => { w with storage := w.storage.addRepository user }
  | .setHistory target history => { w with storage := w.storage.setHistory target history }
  | .event i event => (w.step Accounts.answer i event).2

/-- What an act is to the owners of accounts. -/
def notice? (w : World ι Accounts) : Act ι → Option Notice
  | .addAccount user => some (.registered user)
  | .addRepository _ => none
  | .setHistory _ _ => none
  | .event i event =>
    (w.applied? Accounts.answer i event).map (.pushed (w.sessions i).context.principal)

/-- The world after acts, one after the other. -/
def perform (w : World ι Accounts) : List (Act ι) → World ι Accounts
  | [] => w
  | a :: rest => perform (w.act a) rest

/-- What the acts are to the owners of accounts, in order. -/
def notices (w : World ι Accounts) : List (Act ι) → List Notice
  | [] => []
  | a :: rest => (w.notice? a).toList ++ notices (w.act a) rest

variable {past : List Notice}

/-- An event keeps the owners informed: a push by anyone but the owner is announced, and no other
event touches a mailbox. -/
theorem informed_step {w : World ι Accounts} (h : w.storage.Informed past) (i : ι)
    (event : ParseEvent) :
    (w.step Accounts.answer i event).2.storage.Informed
      ((w.notice? (.event i event)).toList ++ past) := by
  rcases w.storage_step_cases i event with
    ⟨hnone, hsame⟩ | ⟨request, r, r', happlied, -, -, hafter⟩
  · rw [hsame, notice?, hnone]
    exact h
  · rw [hafter, notice?, happlied]
    intro user m hm
    rw [Accounts.mailbox_afterPush] at hm
    by_cases htold : request.target.user = user ∧
        (w.sessions i).context.principal.owns request.target.user = false
    · rw [if_pos htold] at hm
      obtain ⟨huser, howns⟩ := htold
      obtain ⟨before, hbefore, rfl⟩ := Option.map_eq_some_iff.mp hm
      subst huser
      exact (h _ before hbefore).announce ⟨request, _⟩ rfl howns
    · rw [if_neg htold] at hm
      exact (h user m hm).pushed htold

/-- Every act keeps the owners informed. -/
theorem informed_act {w : World ι Accounts} (h : w.storage.Informed past) (a : Act ι) :
    (w.act a).storage.Informed ((w.notice? a).toList ++ past) := by
  cases a with
  | addAccount registered =>
    intro user m hm
    change (w.storage.mailboxes.insert registered .empty).get? user = some m at hm
    rw [Table.get?_insert] at hm
    by_cases huser : registered = user
    · rw [if_pos huser] at hm
      cases hm
      subst huser
      exact .empty registered past
    · rw [if_neg huser] at hm
      exact (h user m hm).registered huser
  | addRepository user => exact h
  | setHistory target history =>
    have hmailboxes : (w.storage.setHistory target history).mailboxes = w.storage.mailboxes := by
      unfold Accounts.setHistory
      split <;> rfl
    intro user m hm
    change (w.storage.setHistory target history).mailboxes.get? user = some m at hm
    rw [hmailboxes] at hm
    exact h user m hm
  | event i event => exact informed_step h i event

/-- Acts in a row keep the owners informed. -/
theorem informed_perform {w : World ι Accounts} (h : w.storage.Informed past)
    (acts : List (Act ι)) :
    (w.perform acts).storage.Informed ((w.notices acts).reverse ++ past) := by
  induction acts generalizing w past with
  | nil => exact h
  | cons a rest ih =>
    have hrest := ih (informed_act h a)
    have horder : (w.notices (a :: rest)).reverse ++ past =
        ((w.act a).notices rest).reverse ++ ((w.notice? a).toList ++ past) := by
      cases hnotice : w.notice? a <;> simp [notices, hnotice]
    rw [horder]
    exact hrest

/-- Whatever happens to a server that starts without accounts, and however the events of its
sessions interleave: no registered mailbox has anything pending that is not visible, and each shows
for every branch the tip that was acknowledged to the last push there by anyone but the owner since
the mailbox was registered, and nothing if there was no such push. -/
theorem mailboxes_informed (sessions : ι → Session) (acts : List (Act ι)) {user : String}
    {m : Mailbox} :
    let start : World ι Accounts := ⟨.empty, sessions⟩
    (start.perform acts).storage.mailboxes.get? user = some m →
      m.committed = m.pending ∧
        ∀ branch, m.channelTip branch =
          (announced? ⟨user, branch⟩ (start.notices acts).reverse).map Tip.toHex := by
  intro start hm
  have hempty : start.storage.Informed [] := by
    intro user m hm
    cases hm
  have hinformed := informed_perform hempty acts
  rw [List.append_nil] at hinformed
  obtain ⟨hsettled, hchannel⟩ := hinformed user m hm
  exact ⟨hsettled, hchannel⟩

/-- An account is registered, a party with a grant pushes a commit to it, and the account gets a new
repository. -/
def pushAndReset : List (Act Unit) :=
  .addAccount "alice" ::
    ((Node.element (.ofAttributes Vocabulary.syncPush [(Vocabulary.branch, "main"),
        (Vocabulary.startCommit, ""), (Vocabulary.lastCommit, (CommitId.uniform 7).toHex),
        (Vocabulary.serverUser, "alice")])
      [.element (.ofAttributes Vocabulary.pack [])
        [.text (Payload.encode (Pack.encode [CommitId.uniform 7]))]]).events.map (.event ())) ++
    [.addRepository "alice"]

/-- The mailbox of the account still shows the commit. -/
theorem pushAndReset_informs :
    let start : World Unit Accounts := ⟨.empty, fun _ => .new Session.guest⟩
    ∃ m, (start.perform pushAndReset).storage.mailboxes.get? "alice" = some m ∧
      m.committed = m.pending ∧ m.channelTip "main" = some (CommitId.uniform 7).toHex := by
  intro start
  have hregistered :
      ((start.perform pushAndReset).storage.mailboxes.get? "alice").isSome = true := by
    decide +kernel
  obtain ⟨m, hm⟩ := Option.isSome_iff_exists.mp hregistered
  obtain ⟨hsettled, hchannel⟩ := mailboxes_informed (fun _ => .new Session.guest) pushAndReset hm
  have hannounced : announced? ⟨"alice", "main"⟩ (start.notices pushAndReset).reverse =
      some (.commit (CommitId.uniform 7)) := by
    decide +kernel
  refine ⟨m, hm, hsettled, ?_⟩
  rw [hchannel, hannounced]
  rfl

end World

end BranchSync
