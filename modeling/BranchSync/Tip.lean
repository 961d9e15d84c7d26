import BranchSync.Commit

/-!
# Tips and references to tips

The tip of a branch is its last commit, or nothing while the branch has no history. A client
refers to a tip by text: the empty text, a commit id, or anything else, which is kept as a
token that only a storage backend may be able to interpret.
-/

namespace BranchSync

/-- The head of a branch. -/
inductive Tip where
  | empty
  | commit (id : CommitId)
  deriving DecidableEq

namespace Tip

/-- A branch starts out without a tip. -/
instance : Inhabited Tip := ⟨.empty⟩

/-- The commit at a tip, if there is one. -/
def commit? : Tip → Option CommitId
  | .empty => none
  | .commit id => some id

/-- The tip of a history given oldest commit first. -/
def ofHistory (history : List CommitId) : Tip :=
  match history.getLast? with
  | none => .empty
  | some id => .commit id

/-- The wire form: the digits of the commit, or the empty text. -/
def toHex : Tip → String
  | .empty => ""
  | .commit id => id.toHex

/-- Read the wire form. -/
def ofHex (s : String) : Except IdentifierError Tip :=
  if s = "" then .ok .empty
  else match CommitId.ofHex s with
    | .ok id => .ok (.commit id)
    | .error e => .error e

/-- A tip as messages show it. -/
def display : Tip → String
  | .empty => "<empty>"
  | .commit id => id.toHex

/-- A tip as diagnostics show it. -/
def describe : Tip → String
  | .empty => "Empty"
  | .commit id => s!"Commit({id.describe})"

end Tip

/-- A client's reference to a tip: a tip, or a token that is passed on verbatim. -/
inductive TipRef where
  | tip (value : Tip)
  | token (text : String)
  deriving DecidableEq

namespace TipRef

/-- Read a reference; every text is one. -/
def ofText (s : String) : TipRef :=
  if s = "" then .tip .empty
  else if isCommitHex s then
    match CommitId.ofHex s with
    | .ok id => .tip (.commit id)
    | .error _ => .token s
  else .token s

/-- The tip that is named, unless the reference is a token. -/
def tip? : TipRef → Option Tip
  | .tip value => some value
  | .token _ => none

/-- The text echoed to the client: the tip's wire form, nothing for a token. -/
def echoHex : TipRef → String
  | .tip value => value.toHex
  | .token _ => ""

/-- A reference as messages show it. -/
def display : TipRef → String
  | .tip value => value.display
  | .token text => s!"opaque:{text}"

end TipRef

end BranchSync
