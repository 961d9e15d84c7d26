import BranchSync.Identifier

/-!
# Branches and grants

A synchronization target is a branch of an account. A grant for it is written `user:branch`;
the account part ends at the first colon, so a branch name may contain colons and an account
that can be granted may not.
-/

namespace BranchSync

/-- The unit of authorization of a delegated party: the text `user:branch`. -/
structure AccessToken where
  text : String
  deriving DecidableEq, Repr

/-- Split a text at its first colon, which belongs to neither part. -/
def splitAtColon : List Char → Option (List Char × List Char)
  | [] => none
  | c :: rest =>
    if c = ':' then some ([], rest)
    else (splitAtColon rest).map fun parts => (c :: parts.1, parts.2)

namespace AccessToken

/-- The grant for one branch of one account. -/
def ofParts (user branch : String) : AccessToken :=
  ⟨user ++ ":" ++ branch⟩

/-- Read a stored grant: both parts around the first colon have to be non-empty. -/
def ofText (s : String) : Except IdentifierError AccessToken :=
  match splitAtColon s.toList with
  | some (_ :: _, _ :: _) => .ok ⟨s⟩
  | _ => .error (.malformedAccessToken s)

end AccessToken

/-- A synchronization target: one branch of one account. -/
structure BranchRef where
  user : String
  branch : String
  deriving DecidableEq, Repr

namespace BranchRef

/-- The grant that a delegated party needs for this branch. -/
def accessToken (target : BranchRef) : AccessToken :=
  .ofParts target.user target.branch

/-- A target as messages show it. -/
def display (target : BranchRef) : String :=
  s!"{target.user}/{target.branch}"

end BranchRef

end BranchSync
