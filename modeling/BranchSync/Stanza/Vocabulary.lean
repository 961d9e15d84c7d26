/-!
# The vocabulary of the wire

The element names, attribute names and fixed messages that clients match letter by letter.
-/

namespace BranchSync.Vocabulary

/-- The element that asks for the commits after a base. -/
def syncPull : String := "sync_pull"

/-- The element that carries commits to append. -/
def syncPush : String := "sync_push"

/-- The element whose text is a pack. -/
def pack : String := "pack"

/-- The attribute that names the branch. -/
def branch : String := "branch"

/-- The attribute that names the account. -/
def serverUser : String := "serverUser"

/-- The attribute with the tip that a pulling client has. -/
def base : String := "base"

/-- The attribute with the tip that the server has. -/
def tip : String := "tip"

/-- The attribute with the tip that a push starts from. -/
def startCommit : String := "start_commit"

/-- The attribute with the tip that a push leads to. -/
def lastCommit : String := "last_commit"

/-- Refusal of a push to a branch that the principal may not touch. -/
def accessDenied : String := "Push: access to branch denied."

/-- Refusal of a push to an account without a repository. -/
def noSuchBranch : String := "Push: no such branch."

/-- Refusal of a push whose pack cannot be applied. -/
def importFailed : String := "Push: unable to import pack."

end BranchSync.Vocabulary
