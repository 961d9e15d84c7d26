import BranchSync.Identifier

/-!
# Server failures

What can go wrong outside a session: credentials that are refused, a configuration that is
not understood or cannot be written, and a file that cannot be read as text.
-/

namespace BranchSync

/-- Why a file could not be read as text. -/
inductive FileError where
  | notFound
  | notText
  deriving DecidableEq, Repr

/-- The wording that the system gives to a failed read. -/
def FileError.message : FileError → String
  | .notFound => "No such file or directory (os error 2)"
  | .notText => "stream did not contain valid UTF-8"

/-- Why the server could not do what it was asked to. -/
inductive ServerError where
  /-- The credentials hold a malformed grant. -/
  | credentials (cause : IdentifierError)
  /-- The configuration is malformed, or cannot be written. -/
  | configuration
  /-- A file could not be read. -/
  | file (cause : FileError)
  deriving DecidableEq, Repr

/-- The wording of a failure. -/
def ServerError.message : ServerError → String
  | .credentials cause => s!"invalid credentials: {cause.message}"
  | .configuration => "configuration error"
  | .file cause => s!"I/O error: {cause.message}"

end BranchSync
