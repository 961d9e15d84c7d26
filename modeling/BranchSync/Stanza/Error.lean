import BranchSync.Text.Base64

/-!
# Malformed requests

What can be wrong with a request before anyone looks at branches: a missing attribute, or a
payload that is too large or not base64.
-/

namespace BranchSync

/-- Why a request is malformed. -/
inductive ProtocolError where
  /-- The payload is not base64 in either alphabet. -/
  | payloadEncoding (cause : Text.Base64.DecodeError)
  /-- The payload is longer than the limit, both in octets of encoded text. -/
  | payloadTooLarge (size max : Nat)
  /-- An element lacks an attribute. -/
  | missingAttribute (element key : String)
  deriving DecidableEq, Repr

/-- The wording of a refusal. -/
def ProtocolError.message : ProtocolError → String
  | .payloadEncoding cause => s!"payload is not valid base64: {cause.message}"
  | .payloadTooLarge size max => s!"payload too large: {size} bytes (max {max})"
  | .missingAttribute element key => s!"missing attribute {key} on <{element}>"

end BranchSync
