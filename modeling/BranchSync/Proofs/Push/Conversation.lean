import BranchSync.Proofs.Backend.CallLog
import BranchSync.Push.Request

/-!
# What a push asks of the storage

A push looks up the repository, may compare its start with the tip, imports its pack, reads the tip
back, and notifies the owner. Any call can fail, and none of the replies has to fit those before it.
The calls that a push makes, and how it is answered, are given here for all replies at once, as
relations between the log of the calls and the answer.
-/

namespace BranchSync

namespace Exchange

/-- The import of what a push carries. -/
def importFor (request : PushRequest) (reply : Except RepositoryError Unit) : Exchange :=
  ⟨.importPack request.target.user request.target.branch (request.pack.getD []) request.start
    request.last, reply⟩

/-- The tip of a branch is read. -/
def tipOf (target : BranchRef) (reply : Except RepositoryError Tip) : Exchange :=
  ⟨.tip target.user target.branch, reply⟩

/-- The repository of the account of a branch is looked up. -/
def repositoryOf (target : BranchRef) (found : Bool) : Exchange :=
  ⟨.repository target.user, found⟩

/-- The mailbox of the account of a branch is looked up. -/
def mailboxOf (target : BranchRef) (found : Bool) : Exchange :=
  ⟨.mailbox target.user, found⟩

/-- The mailbox of an account is told the tip of a branch. -/
def tellTip (target : BranchRef) (tip : Tip) (reply : Except RepositoryError Bool) : Exchange :=
  ⟨.updateChannelTip target.user target.branch tip.toHex, reply⟩

/-- What the mailbox of an account was told is made visible. -/
def commit (target : BranchRef) (reply : Except RepositoryError Unit) : Exchange :=
  ⟨.commitMailbox target.user, reply⟩

end Exchange

namespace PushRequest

open BackendProgram (log_bind log_ask log_pure run_bind run_ask run_pure)
open Exchange

/-- The calls by which the owner of a branch is notified of a tip: there is no mailbox, or it takes
the tip and what it took is made visible if it was new, or it does not take the tip. -/
inductive Notified (target : BranchRef) (tip : Tip) : List Exchange → Prop
  | noMailbox : Notified target tip [mailboxOf target false]
  | committed {reply : Except RepositoryError Unit} :
      Notified target tip
        [mailboxOf target true, tellTip target tip (.ok true), commit target reply]
  | uncommitted {reply : Except RepositoryError Bool} (h : reply ≠ .ok true) :
      Notified target tip [mailboxOf target true, tellTip target tip reply]

/-- The calls by which a push is transferred, with its answer: the import fails, or the tip cannot
be read after it, or the push is accepted, and the owner is notified if someone else pushed. -/
inductive Transferred (request : PushRequest) (principal : Principal) :
    List Exchange → PushAnswer → Prop
  | unimported {e : RepositoryError} :
      Transferred request principal [importFor request (.error e)] (refuse .importFailed)
  | unread {e : RepositoryError} :
      Transferred request principal
        [importFor request (.ok ()), tipOf request.target (.error e)] (refuse .importFailed)
  | own {tip : Tip} (howns : principal.owns request.target.user = true) :
      Transferred request principal
        [importFor request (.ok ()), tipOf request.target (.ok tip)] (request.accept tip)
  | notified {tip : Tip} {notice : List Exchange}
      (howns : principal.owns request.target.user = false)
      (hnotice : Notified request.target tip notice) :
      Transferred request principal
        (importFor request (.ok ()) :: tipOf request.target (.ok tip) :: notice)
        (request.accept tip)

/-- The calls of a push, with its answer: none without access; the repository is looked up, and the
tip may be read, before the push is refused or transferred. -/
inductive Finalized (request : PushRequest) (principal : Principal) :
    List Exchange → PushAnswer → Prop
  | denied (haccess : principal.canAccess request.target = false) :
      Finalized request principal [] (refuse .accessDenied)
  | unknown (haccess : principal.canAccess request.target = true) :
      Finalized request principal [repositoryOf request.target false] (refuse .noSuchBranch)
  | stopped {checks : List Exchange} (haccess : principal.canAccess request.target = true)
      (hchecks : ∀ x ∈ checks, ∃ reply, x = tipOf request.target reply) :
      Finalized request principal (repositoryOf request.target true :: checks)
        (refuse .importFailed)
  | transferred {checks transfer : List Exchange} {answer : PushAnswer}
      (haccess : principal.canAccess request.target = true)
      (hchecks : ∀ x ∈ checks, ∃ reply, x = tipOf request.target reply)
      (htransfer : Transferred request principal transfer answer) :
      Finalized request principal (repositoryOf request.target true :: (checks ++ transfer)) answer

variable {σ : Type} (answer : BackendProgram.Handler σ)

/-- Whatever the storage replies, the owner is notified in one of these ways. -/
theorem notified_notifyOwner (target : BranchRef) (tip : Tip) (storage : σ) :
    Notified target tip ((notifyOwner target tip).log answer storage) := by
  unfold notifyOwner
  rw [log_bind, log_ask, run_ask]
  rcases answer (.mailbox target.user) storage with ⟨found, asked⟩
  cases found with
  | false => exact .noMailbox
  | true =>
    simp only [if_true]
    rw [log_bind, log_ask, run_ask]
    rcases answer (.updateChannelTip target.user target.branch tip.toHex) asked with ⟨reply, told⟩
    rcases reply with e | changed
    · exact .uncommitted (fun h => by cases h)
    · cases changed with
      | false => exact .uncommitted (fun h => by cases h)
      | true => exact .committed

/-- Whatever the storage replies, a push is transferred in one of these ways. -/
theorem transferred_transfer (request : PushRequest) (principal : Principal) (storage : σ) :
    Transferred request principal ((request.transfer principal).log answer storage)
      ((request.transfer principal).run answer storage).1 := by
  unfold transfer
  rw [log_bind, run_bind, log_ask, run_ask]
  rcases answer (.importPack request.target.user request.target.branch (request.pack.getD [])
    request.start request.last) storage with ⟨reply, imported⟩
  rcases reply with e | ⟨⟩
  · exact .unimported
  · simp only
    rw [log_bind, run_bind, log_ask, run_ask]
    rcases answer (.tip request.target.user request.target.branch) imported with ⟨reply, read⟩
    rcases reply with e | tip
    · exact .unread
    · cases howns : principal.owns request.target.user with
      | true => exact .own howns
      | false =>
        simp only [Bool.false_eq_true, if_false]
        rw [log_bind, log_pure, List.append_nil, run_bind, run_pure]
        exact .notified howns (notified_notifyOwner answer request.target tip read)

/-- Whatever the storage replies, the start is compared by reading no more than the tip. -/
theorem log_startIsCurrent (request : PushRequest) (storage : σ) :
    ∀ x ∈ request.startIsCurrent.log answer storage, ∃ reply, x = tipOf request.target reply := by
  unfold startIsCurrent
  cases request.start with
  | token text =>
    intro x hx
    cases hx
  | tip expected =>
    simp only
    rw [log_bind, log_ask, run_ask]
    rcases answer (.tip request.target.user request.target.branch) storage with ⟨reply, read⟩
    rcases reply with e | current
    · intro x hx
      exact ⟨_, List.mem_singleton.mp hx⟩
    · intro x hx
      exact ⟨_, List.mem_singleton.mp hx⟩

/-- Whatever the storage replies, a push is finalized in one of these ways. -/
theorem finalized_finalize (request : PushRequest) (context : SyncContext)
    (fault : Option ProtocolError) (storage : σ) :
    Finalized request context.principal ((request.finalize context fault).log answer storage)
      ((request.finalize context fault).run answer storage).1 := by
  unfold finalize
  cases haccess : context.principal.canAccess request.target with
  | false => exact .denied haccess
  | true =>
    simp only [if_true]
    rw [log_bind, run_bind, log_ask, run_ask]
    rcases answer (.repository request.target.user) storage with ⟨found, asked⟩
    cases found with
    | false => exact .unknown haccess
    | true =>
      have htransfer := transferred_transfer answer request context.principal
      have hunchecked : ∀ x ∈ ([] : List Exchange), ∃ reply, x = tipOf request.target reply := by
        simp
      simp only [if_true, List.singleton_append]
      cases fault with
      | some fault => exact .stopped haccess hunchecked
      | none =>
        simp only [Option.isSome_none, Bool.false_eq_true, if_false]
        cases context.policy.verifyStartTip with
        | false => exact .transferred haccess hunchecked (htransfer asked)
        | true =>
          have hchecks := log_startIsCurrent answer request asked
          simp only [if_true]
          rw [log_bind, run_bind]
          cases (request.startIsCurrent.run answer asked).1 with
          | false =>
            simp only [Bool.false_eq_true, if_false, log_pure, List.append_nil]
            exact .stopped haccess hchecks
          | true => exact .transferred haccess hchecks (htransfer _)

end PushRequest

end BranchSync
