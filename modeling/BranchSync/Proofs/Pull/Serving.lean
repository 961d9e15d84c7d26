import BranchSync.Proofs.Accounts.Answers
import BranchSync.Proofs.Repository.Exports
import BranchSync.Pull

/-!
# Serving a pull from accounts in memory

A pull that is run against accounts in memory is decided by three questions in a row: whether it
is well formed, whether the principal may touch the branch, and whether the account has a
repository. From then on the history of the branch that it names determines the answer. A pull
leaves the accounts as they were.
-/

namespace BranchSync

namespace PullRequest

/-- The answer to a pull of a branch with a given history. -/
def answerFrom (request : PullRequest) (history : List CommitId) (depth : Depth) : PullAnswer :=
  match Repository.exportCommits history request.target.branch request.base (.ofHistory history)
    depth with
  | .error cause => request.degrade cause
  | .ok commits => request.serve (.ofHistory history) (Pack.encode commits)

/-- Over accounts in memory, an export for a pull sees the history of its branch. -/
theorem run_exportFor {a : Accounts} {request : PullRequest} {r : Repository}
    (hr : a.repositories.get? request.target.user = some r) (context : SyncContext) :
    (request.exportFor context).run Accounts.answer a =
      (request.answerFrom (a.history request.target) context.policy.exportDepth, a) := by
  have htip : r.tip request.target.branch = .ofHistory (r.history request.target.branch) := rfl
  unfold exportFor answerFrom
  rw [Accounts.history_eq hr, BackendProgram.run_bind, Accounts.run_ask_tip,
    Accounts.withRepository_eq hr]
  simp only
  rw [BackendProgram.run_bind, Accounts.run_ask_exportPack, Accounts.withRepository_eq hr,
    Repository.exportPack_eq, htip]
  cases Repository.exportCommits (r.history request.target.branch) request.target.branch
    request.base (.ofHistory (r.history request.target.branch)) context.policy.exportDepth <;> rfl

end PullRequest

/-- Over accounts in memory, a pull is decided by its form, by access, by the existence of the
account and by the history of its branch, in this order, and changes nothing. -/
theorem run_handlePull (context : SyncContext) (element : Element) (a : Accounts) :
    (handlePull context element).run Accounts.answer a =
      (match PullRequest.ofElement element with
        | .error e => .error e
        | .ok request =>
          if context.principal.canAccess request.target then
            if (a.repositories.get? request.target.user).isSome then
              .ok (request.answerFrom (a.history request.target) context.policy.exportDepth)
            else .error (.unknownAccount request.target.user)
          else .error (.unauthorized request.target context.principal.label), a) := by
  unfold handlePull
  cases PullRequest.ofElement element with
  | error e => rfl
  | ok request =>
    by_cases haccess : context.principal.canAccess request.target = true
    · simp only [if_pos haccess]
      rw [BackendProgram.run_bind, Accounts.run_ask_repository]
      cases hr : a.repositories.get? request.target.user with
      | none => rfl
      | some r =>
        simp only [Option.isSome_some, if_true]
        rw [BackendProgram.run_bind, PullRequest.run_exportFor hr]
        rfl
    · simp only [if_neg haccess]
      rfl

end BranchSync
