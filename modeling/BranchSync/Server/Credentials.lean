import BranchSync.Principal

/-!
# Credentials

What the transport learned about a peer when it authenticated the connection, and the
principal that the peer's session acts for. Stored grants are checked one by one, and the
first malformed one refuses the credentials.
-/

namespace BranchSync

/-- What is known of an authenticated peer. -/
inductive Credentials where
  /-- Logged in as the owner of an account. -/
  | account (user : String)
  /-- Acting through stored grants, given as texts. -/
  | delegated (grants : List String)
  deriving DecidableEq, Repr

/-- Read stored grants, up to the first that is malformed. -/
def readGrants : List String → Except IdentifierError (List AccessToken)
  | [] => .ok []
  | text :: rest => do
    let token ← AccessToken.ofText text
    let tokens ← readGrants rest
    pure (token :: tokens)

/-- The principal that a session with these credentials acts for. -/
def Credentials.principal : Credentials → Except IdentifierError Principal
  | .account user => .ok (.account user)
  | .delegated grants => do
    let tokens ← readGrants grants
    pure (.delegated (.ofList tokens))

end BranchSync
