import BranchSync.Identifier

/-!
# Commit ids

A commit id is a string of twenty octets, written as forty hexadecimal digits. Reading
accepts either case, writing is always lowercase. `isCommitHex` decides by the shape of a
text alone whether it is a commit id; `CommitId.ofHex` reads it and says what is wrong with
one that is not.
-/

namespace BranchSync

/-- A commit id: twenty octets. -/
structure CommitId where
  octets : List UInt8
  length_octets : octets.length = commitIdLength
  deriving DecidableEq

/-- Whether a text has the shape of a commit id: forty octets, all of them hexadecimal digits. -/
def isCommitHex (s : String) : Bool :=
  let bytes := Text.octets s
  bytes.length == commitHexLength && bytes.all fun b => (Text.Hex.digitValue? b).isSome

namespace CommitId

/-- The commit id with the given octets, which have to be twenty. -/
def ofOctets (bytes : List UInt8) : Except IdentifierError CommitId :=
  if h : bytes.length = commitIdLength then .ok ⟨bytes, h⟩
  else .error (.invalidLength bytes.length)

/-- The octets of a commit id are read as the commit id. -/
theorem ofOctets_octets (id : CommitId) : ofOctets id.octets = .ok id :=
  dif_pos id.length_octets

/-- Read a commit id from hexadecimal text of either case. -/
def ofHex (s : String) : Except IdentifierError CommitId :=
  match Text.Hex.decode s with
  | .error cause => .error (.invalidHex cause)
  | .ok bytes => ofOctets bytes

/-- The forty lowercase digits of a commit id. -/
def toHex (id : CommitId) : String :=
  Text.Hex.encode id.octets

/-- The first eight digits, which identify a commit to a human reader. -/
def shortHex (id : CommitId) : String :=
  String.ofList (id.toHex.toList.take 8)

/-- A commit id as diagnostics show it. -/
def describe (id : CommitId) : String :=
  s!"CommitId({id.shortHex})"

/-- Commit ids are ordered by their octets, the first difference deciding. -/
def order (a b : CommitId) : Ordering :=
  compare a.octets b.octets

end CommitId

end BranchSync
