import BranchSync.Commit

/-!
# Packs of commits

A pack is the concatenation of commit ids, oldest first, twenty octets each. Writing and
reading are inverse to each other on the octet strings whose length is a multiple of twenty,
and no other octet string is a pack.
-/

namespace BranchSync

/-- Why an octet string is not a pack. -/
inductive PackError where
  /-- The length is not a multiple of the length of a commit id. -/
  | ragged (length : Nat)
  /-- A slice of the pack is not a commit id. -/
  | badCommit (cause : IdentifierError)
  deriving DecidableEq, Repr

/-- The wording of a refusal. -/
def PackError.message : PackError → String
  | .ragged length => s!"length {length} is not a multiple of {commitIdLength}"
  | .badCommit cause => cause.message

namespace Pack

/-- The octets of the given commits, one after the other. -/
def encode (commits : List CommitId) : List UInt8 :=
  commits.flatMap CommitId.octets

/-- Cut off `count` slices of the length of a commit id. -/
def slices : Nat → List UInt8 → List (List UInt8)
  | 0, _ => []
  | count + 1, bytes =>
    bytes.take commitIdLength :: slices count (bytes.drop commitIdLength)

/-- Read slices as commit ids, up to the first that is none. -/
def readSlices : List (List UInt8) → Except PackError (List CommitId)
  | [] => .ok []
  | slice :: rest =>
    match CommitId.ofOctets slice with
    | .error cause => .error (.badCommit cause)
    | .ok id =>
      match readSlices rest with
      | .error e => .error e
      | .ok ids => .ok (id :: ids)

/-- Read a pack. -/
def decode (pack : List UInt8) : Except PackError (List CommitId) :=
  if pack.length % commitIdLength ≠ 0 then .error (.ragged pack.length)
  else readSlices (slices (pack.length / commitIdLength) pack)

end Pack

end BranchSync
