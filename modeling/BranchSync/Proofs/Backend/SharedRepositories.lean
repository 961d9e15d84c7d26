import BranchSync.Accounts
import BranchSync.Proofs.Backend.CallLog

/-!
# Backends with the same repositories

Mailboxes are asked for, told tips and made to show them by calls of their own. Two backends have
the same repositories when all other calls are answered from a part of their states that mailboxes
leave alone, and answered alike. A program that does nothing with what a mailbox replies runs over
such a backend as it runs where nobody has a mailbox.
-/

namespace BranchSync

/-- Whether calls of a kind are made to a mailbox. -/
def CallKind.notifies : CallKind → Bool
  | .repository => false
  | .mailbox => true
  | .tip => false
  | .exportPack => false
  | .importPack => false
  | .updateChannelTip => true
  | .commitMailbox => true

namespace BackendProgram

variable {α β ρ σ μ : Type}

/-- The backend in which no account has a mailbox. -/
def withoutMailboxes (repository : Handler ρ) : Handler ρ
  | .repository user, s => repository (.repository user) s
  | .mailbox _, s => (false, s)
  | .tip user branch, s => repository (.tip user branch) s
  | .exportPack user branch base target depth, s =>
    repository (.exportPack user branch base target depth) s
  | .importPack user branch pack start last, s =>
    repository (.importPack user branch pack start last) s
  | .updateChannelTip user _ _, s => (.error (Accounts.noAccount user), s)
  | .commitMailbox user, s => (.error (Accounts.noAccount user), s)

/-- The backend in which mailboxes have a state of their own beside that of the repositories. -/
def beside (repository : Handler ρ) (mailbox : Handler μ) : Handler (ρ × μ) := fun request s =>
  if request.kind.notifies then ((mailbox request s.2).1, (s.1, (mailbox request s.2).2))
  else ((repository request s.1).1, ((repository request s.1).2, s.2))

/-- A backend answers the calls that are not made to a mailbox from the repositories that it holds,
and calls to a mailbox do not change these. -/
structure KeepsRepositories (repository : Handler ρ) (answer : Handler σ) (view : σ → ρ) :
    Prop where
  answered : ∀ request s, request.kind.notifies = false →
    (answer request s).1 = (repository request (view s)).1 ∧
      view (answer request s).2 = (repository request (view s)).2
  notified : ∀ request s, request.kind.notifies = true → view (answer request s).2 = view s

/-- Mailboxes that have a state of their own leave the repositories alone. -/
theorem keepsRepositories_beside (repository : Handler ρ) (mailbox : Handler μ) :
    KeepsRepositories repository (beside repository mailbox) Prod.fst where
  answered := by
    intro request s h
    simp [beside, h]
  notified := by
    intro request s h
    simp [beside, h]

/-- Where nobody has a mailbox, the repositories are answered for as they were. -/
theorem withoutMailboxes_of_not_notifies (repository : Handler ρ) {request : BackendCall}
    (h : request.kind.notifies = false) (s : ρ) :
    withoutMailboxes repository request s = repository request s := by
  cases request with
  | repository user => rfl
  | mailbox user => cases h
  | tip user branch => rfl
  | exportPack user branch base target depth => rfl
  | importPack user branch pack start last => rfl
  | updateChannelTip user branch tip => cases h
  | commitMailbox user => cases h

/-- Where nobody has a mailbox, there is nothing but the repositories. -/
theorem keepsRepositories_withoutMailboxes (repository : Handler ρ) :
    KeepsRepositories repository (withoutMailboxes repository) id where
  answered := by
    intro request s h
    rw [withoutMailboxes_of_not_notifies repository h]
    exact ⟨rfl, rfl⟩
  notified := by
    intro request s h
    cases request with
    | repository user => cases h
    | mailbox user => rfl
    | tip user branch => cases h
    | exportPack user branch base target depth => cases h
    | importPack user branch pack start last => cases h
    | updateChannelTip user branch tip => rfl
    | commitMailbox user => rfl

/-- Calls to mailboxes do not change the repositories. -/
theorem view_run_of_notifies {repository : Handler ρ} {answer : Handler σ} {view : σ → ρ}
    (h : KeepsRepositories repository answer view) {p : BackendProgram α}
    (hp : p.AllCalls fun request => request.kind.notifies = true) (s : σ) :
    view (p.run answer s).2 = view s := by
  induction p generalizing s with
  | done value => rfl
  | call request next ih =>
    have hnext := ih (answer request s).1 (hp.2 _) (answer request s).2
    exact hnext.trans (h.notified request s hp.1)

/-- Over every backend a program returns what it returns where nobody has a mailbox, and leaves the
same repositories. -/
def IgnoresMailboxes (p : BackendProgram α) : Prop :=
  ∀ ⦃ρ σ : Type⦄ ⦃repository : Handler ρ⦄ ⦃answer : Handler σ⦄ ⦃view : σ → ρ⦄,
    KeepsRepositories repository answer view → ∀ s : σ,
      p.run (withoutMailboxes repository) (view s) =
        ((p.run answer s).1, view (p.run answer s).2)

/-- A returned value has nothing to do with mailboxes. -/
theorem ignoresMailboxes_pure (value : α) :
    (pure value : BackendProgram α).IgnoresMailboxes := by
  intro ρ σ repository answer view h s
  rfl

/-- A sequence ignores mailboxes if its parts do. -/
theorem ignoresMailboxes_bind {p : BackendProgram α} {f : α → BackendProgram β}
    (hp : p.IgnoresMailboxes) (hf : ∀ value, (f value).IgnoresMailboxes) :
    (p >>= f).IgnoresMailboxes := by
  intro ρ σ repository answer view h s
  rw [run_bind, run_bind, hp h s]
  exact hf _ h _

/-- A call that is not made to a mailbox is answered alike. -/
theorem ignoresMailboxes_ask {request : BackendCall} (hrequest : request.kind.notifies = false) :
    (ask request).IgnoresMailboxes := by
  intro ρ σ repository answer view h s
  obtain ⟨hreply, hview⟩ := h.answered request s hrequest
  rw [run_ask, run_ask, withoutMailboxes_of_not_notifies repository hrequest, hreply, hview]

/-- A program that calls mailboxes only, and returns nothing, ignores what they reply. -/
theorem ignoresMailboxes_of_notifies {p : BackendProgram Unit}
    (hp : p.AllCalls fun request => request.kind.notifies = true) : p.IgnoresMailboxes := by
  intro ρ σ repository answer view h s
  have hsilent := view_run_of_notifies (keepsRepositories_withoutMailboxes repository) hp (view s)
  rw [view_run_of_notifies h hp s]
  exact Prod.ext rfl hsilent

end BackendProgram

namespace Accounts

/-- The repositories of accounts in memory as a backend of their own. -/
def answerRepositories : BackendProgram.Handler (Table Repository) := fun request repositories =>
  let answered := answer request ⟨repositories, .empty⟩
  (answered.1, answered.2.repositories)

/-- Accounts in memory hold their repositories apart from the mailboxes. -/
theorem keepsRepositories_answer :
    BackendProgram.KeepsRepositories answerRepositories answer Accounts.repositories where
  answered := by
    intro request a h
    cases request with
    | repository user => exact ⟨rfl, rfl⟩
    | mailbox user => cases h
    | tip user branch => exact ⟨rfl, rfl⟩
    | exportPack user branch base target depth => exact ⟨rfl, rfl⟩
    | importPack user branch pack start last =>
      simp only [answerRepositories, answer, withRepository]
      cases a.repositories.get? user with
      | none => exact ⟨rfl, rfl⟩
      | some r =>
        dsimp only
        cases r.importPack branch pack start last <;> exact ⟨rfl, rfl⟩
    | updateChannelTip user branch tip => cases h
    | commitMailbox user => cases h
  notified := by
    intro request a h
    cases request with
    | repository user => cases h
    | mailbox user => rfl
    | tip user branch => cases h
    | exportPack user branch base target depth => cases h
    | importPack user branch pack start last => cases h
    | updateChannelTip user branch tip =>
      simp only [answer]
      cases a.mailboxes.get? user <;> rfl
    | commitMailbox user =>
      simp only [answer]
      cases a.mailboxes.get? user <;> rfl

end Accounts

end BranchSync
