import BranchSync.Config.Settings
import BranchSync.Server.Credentials
import BranchSync.Server.Error
import BranchSync.Server.SessionId
import BranchSync.Session

/-!
# The session service

A server opens sessions for authenticated peers, all under the policy of its settings, and
counts them. A peer whose credentials are refused gets no session and is not counted.
-/

namespace BranchSync

/-- A server: its settings and the number of sessions opened so far. -/
structure Service where
  settings : Settings
  opened : Nat
  deriving DecidableEq

/-- A session of a server, with its id. -/
structure HostedSession where
  id : SessionId
  session : Session
  deriving DecidableEq

namespace Service

/-- A server that has opened no session. -/
def new (settings : Settings) : Service := ⟨settings, 0⟩

/-- Open a session with the given id for a principal. -/
def openSession (s : Service) (id : SessionId) (principal : Principal) :
    HostedSession × Service :=
  (⟨id, .new ⟨principal, s.settings.policy⟩⟩, { s with opened := s.opened + 1 })

/-- Open a session for a peer, if the credentials are in order. -/
def openFor (s : Service) (id : SessionId) (credentials : Credentials) :
    Except ServerError (HostedSession × Service) :=
  match credentials.principal with
  | .error cause => .error (.credentials cause)
  | .ok principal => .ok (s.openSession id principal)

end Service

end BranchSync
