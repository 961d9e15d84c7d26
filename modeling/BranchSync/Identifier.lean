import BranchSync.Text.Hex

/-!
# Malformed identifiers

The reasons for which a text or an octet string does not name a commit, or a text does not
name a grant, with their wording.
-/

namespace BranchSync

/-- Why something is not an identifier. -/
inductive IdentifierError where
  /-- A commit text is not hexadecimal. -/
  | invalidHex (cause : Text.Hex.Error)
  /-- A commit has the wrong number of octets. -/
  | invalidLength (actual : Nat)
  /-- A grant lacks a colon, or one of the parts around its first colon. -/
  | malformedAccessToken (text : String)
  deriving DecidableEq, Repr

/-- The number of octets of a commit id. -/
def commitIdLength : Nat := 20

/-- The number of hexadecimal digits of a commit id. -/
def commitHexLength : Nat := 40

/-- The wording of a refusal. -/
def IdentifierError.message : IdentifierError → String
  | .invalidHex cause => s!"invalid hex string: {cause.message}"
  | .invalidLength actual => s!"invalid byte length: expected {commitIdLength}, got {actual}"
  | .malformedAccessToken text => s!"malformed access token: {text}"

end BranchSync
