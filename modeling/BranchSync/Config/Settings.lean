import BranchSync.Context
import BranchSync.Net.SocketAddress

/-!
# Server settings

The settings of a server, with a default for each, and the policy that its sessions run under.
-/

namespace BranchSync

/-- What can be configured. -/
structure Settings where
  /-- Where the server listens. -/
  bindAddress : Net.SocketAddress
  /-- The largest accepted payload, in octets of encoded text. -/
  maxPackSize : UInt64
  /-- Refuse a push that does not start at the current tip. -/
  verifyStartTip : Bool
  /-- The largest number of commits in a pull export; unbounded when absent. -/
  exportDepth : Option UInt32
  /-- The directives that select log output. -/
  logFilter : String
  deriving DecidableEq

namespace Settings

/-- The settings of a server that was told nothing. -/
def default : Settings where
  bindAddress := .v4 ⟨127, 0, 0, 1⟩ 7420
  maxPackSize := 104857600
  verifyStartTip := false
  exportDepth := none
  logFilter := "info"

/-- Every setting has a default. -/
instance : Inhabited Settings := ⟨default⟩

/-- The policy of every session that is opened under the settings. -/
def policy (s : Settings) : SyncPolicy where
  verifyStartTip := s.verifyStartTip
  maxPayloadSize := some s.maxPackSize
  exportDepth := match s.exportDepth with
    | none => .unbounded
    | some count => .limited count

end Settings

end BranchSync
