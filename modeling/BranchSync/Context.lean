import BranchSync.Principal
import BranchSync.Repository

/-!
# The context of a session

Each session acts for one principal under a policy that is shared by all sessions of a server.
-/

namespace BranchSync

/-- The rules that a server applies to every session. -/
structure SyncPolicy where
  /-- Refuse a push that does not start at the current tip before trying to apply it. -/
  verifyStartTip : Bool
  /-- The largest accepted payload, in octets of encoded text. -/
  maxPayloadSize : Option UInt64
  /-- How much history a pull may export. -/
  exportDepth : Depth
  deriving DecidableEq, Repr

namespace SyncPolicy

/-- No check of its own, no limits. -/
def default : SyncPolicy := ⟨false, none, .unbounded⟩

/-- Without other instructions the rules are permissive. -/
instance : Inhabited SyncPolicy := ⟨default⟩

/-- A truth value as diagnostics show it. -/
def describeBool (b : Bool) : String := if b then "true" else "false"

/-- A policy as diagnostics show it. -/
def describe (p : SyncPolicy) : String :=
  let size := match p.maxPayloadSize with
    | none => "None"
    | some max => s!"Some({max.toNat})"
  let depth := match p.exportDepth with
    | .unbounded => "Unbounded"
    | .limited count => s!"Limited({count.toNat})"
  "SyncPolicy \x7b verify_start_tip: " ++ describeBool p.verifyStartTip ++
    ", max_payload_size: " ++ size ++ ", export_depth: " ++ depth ++ " \x7d"

end SyncPolicy

/-- The acting principal of a session and the policy it is under. -/
structure SyncContext where
  principal : Principal
  policy : SyncPolicy
  deriving DecidableEq

/-- A context as diagnostics show it. -/
def SyncContext.describe (c : SyncContext) : String :=
  "SyncContext \x7b principal: " ++ c.principal.describe ++ ", policy: " ++ c.policy.describe ++
    ", .. \x7d"

end BranchSync
