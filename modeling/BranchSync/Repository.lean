import BranchSync.Pack
import BranchSync.Table
import BranchSync.Tip

/-!
# Repositories

A repository keeps one linear history of commits per branch. A branch that was never written
has the empty history. An export is the part of a history between two tips, cut to the most
recent commits if a depth is set. An import only ever appends: it has to start at the current
tip and to end where it announced to. Commits are located by their first occurrence, and a
token is no tip of such a repository.
-/

namespace BranchSync

/-- How much history an export may include. -/
inductive Depth where
  /-- Everything between the two tips. -/
  | unbounded
  /-- At most this many of the most recent commits. -/
  | limited (count : UInt32)
  deriving DecidableEq, Repr

/-- Keep what a depth allows of a list that is given oldest first. -/
def Depth.trim {α : Type} : Depth → List α → List α
  | .unbounded, commits => commits
  | .limited count, commits => commits.drop (commits.length - count.toNat)

/-- Why a storage backend refuses a request. -/
inductive RepositoryError where
  /-- The commit is not part of the history of the branch. -/
  | unknownCommit (branch : String) (commit : CommitId)
  /-- The backend cannot resolve this reference. -/
  | unsupportedRef (reference : TipRef)
  /-- The first reference lies after the second one in the history of the branch. -/
  | notAncestor (branch : String) (earlier later : TipRef)
  /-- The octets are not a pack. -/
  | corruptPack (cause : PackError)
  /-- The pack does not lead to the announced tip. -/
  | tipMismatch (expected actual : Tip)
  /-- The storage behind the backend failed. -/
  | backend (reason : String)
  deriving DecidableEq

/-- The wording of a refusal. -/
def RepositoryError.message : RepositoryError → String
  | .unknownCommit branch commit => s!"commit {commit.toHex} not found on branch {branch}"
  | .unsupportedRef reference => s!"unsupported tip reference: {reference.display}"
  | .notAncestor branch earlier later =>
    s!"{earlier.display} is not an ancestor of {later.display} on branch {branch}"
  | .corruptPack cause => s!"corrupt pack: {cause.message}"
  | .tipMismatch expected actual => s!"pack ends at {actual.toHex}, expected {expected.toHex}"
  | .backend reason => s!"backend error: {reason}"

/-- Linear histories, oldest commit first, by branch. -/
structure Repository where
  branches : Table (List CommitId)
  deriving DecidableEq

namespace Repository

/-- The repository without branches. -/
def empty : Repository := ⟨.empty⟩

/-- A repository starts out empty. -/
instance : Inhabited Repository := ⟨empty⟩

/-- The history of a branch, oldest commit first; empty for an unknown branch. -/
def history (r : Repository) (branch : String) : List CommitId :=
  (r.branches.get? branch).getD []

/-- Replace the history of a branch. -/
def setHistory (r : Repository) (branch : String) (history : List CommitId) : Repository :=
  ⟨r.branches.insert branch history⟩

/-- A replaced history is seen on its own branch and on no other. -/
theorem history_setHistory (r : Repository) (branch b : String) (commits : List CommitId) :
    (r.setHistory branch commits).history b = if branch = b then commits else r.history b := by
  by_cases h : branch = b <;> simp [history, setHistory, Table.get?_insert, h]

/-- The current tip of a branch. -/
def tip (r : Repository) (branch : String) : Tip :=
  .ofHistory (r.history branch)

/-- The number of commits up to and including the first occurrence of a tip. -/
def position? (history : List CommitId) : Tip → Option Nat
  | .empty => some 0
  | .commit id => (history.idxOf? id).map (· + 1)

/-- The position of a tip, or the refusal that names its commit. -/
def position (history : List CommitId) (branch : String) (tip : Tip) :
    Except RepositoryError Nat :=
  match tip with
  | .empty => .ok 0
  | .commit id =>
    match position? history (.commit id) with
    | some n => .ok n
    | none => .error (.unknownCommit branch id)

/-- The tip that a reference names; a token names none. -/
def resolve (reference : TipRef) : Except RepositoryError Tip :=
  match reference with
  | .tip value => .ok value
  | .token text => .error (.unsupportedRef (.token text))

/-- The commits that an export consists of: those after `base` up to `target`, trimmed to the
depth. -/
def exportCommits (history : List CommitId) (branch : String) (base : TipRef) (target : Tip)
    (depth : Depth) : Except RepositoryError (List CommitId) := do
  let baseTip ← resolve base
  let start ← position history branch baseTip
  let stop ← position history branch target
  if start > stop then .error (.notAncestor branch base (.tip target))
  else pure (depth.trim ((history.take stop).drop start))

/-- The pack that takes a receiver from `base` to `target`. -/
def exportPack (r : Repository) (branch : String) (base : TipRef) (target : Tip)
    (depth : Depth) : Except RepositoryError (List UInt8) := do
  let commits ← exportCommits (r.history branch) branch base target depth
  pure (Pack.encode commits)

/-- Read the octets of a pack. -/
def readPack (pack : List UInt8) : Except RepositoryError (List CommitId) :=
  match Pack.decode pack with
  | .ok commits => .ok commits
  | .error cause => .error (.corruptPack cause)

/-- The tip that a branch at `start` has after appending commits. -/
def tipAfter (start : Tip) (commits : List CommitId) : Tip :=
  match commits.getLast? with
  | none => start
  | some id => .commit id

/-- The history after an import that starts at `start`, which has to be the current tip, and
ends at `last`, which has to be where the commits lead. -/
def extend (history : List CommitId) (branch : String) (commits : List CommitId)
    (start last : Tip) : Except RepositoryError (List CommitId) := do
  let kept ← position history branch start
  if kept ≠ history.length then
    .error (.notAncestor branch (.tip (.ofHistory history)) (.tip last))
  else if tipAfter start commits ≠ last then
    .error (.tipMismatch last (tipAfter start commits))
  else pure (history ++ commits)

/-- Apply a pack to a branch, moving it from `start` to `last`. A refusal changes nothing. -/
def importPack (r : Repository) (branch : String) (pack : List UInt8) (start last : TipRef) :
    Except RepositoryError Repository := do
  let commits ← readPack pack
  let startTip ← resolve start
  let lastTip ← resolve last
  let history ← extend (r.history branch) branch commits startTip lastTip
  pure (r.setHistory branch history)

end Repository

end BranchSync
