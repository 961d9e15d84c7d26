import BranchSync.Proofs.Checks
import BranchSync.Server.Credentials

/-!
# What a list of grants opens

A stored grant names an account and a branch, cut at its first colon. A request is authorized by
comparing texts instead: the account and the branch it carries are joined by a colon and looked up
among the grants. The two agree for accounts without a colon. For an account with a colon the
joined text may be a grant for a branch of another account, and that grant lets the request in.

Whether a server registers accounts with a colon is not covered.
-/

namespace BranchSync

/-- A text is cut at a colon that no other colon precedes. -/
theorem splitAtColon_append {user : List Char} (h : ':' ∉ user) (branch : List Char) :
    splitAtColon (user ++ ':' :: branch) = some (user, branch) := by
  induction user with
  | nil => rfl
  | cons c rest ih =>
    rw [List.mem_cons, not_or] at h
    have hrest := ih h.2
    rw [List.cons_append, splitAtColon, if_neg (Ne.symm h.1), hrest]
    rfl

/-- The parts of a text that is cut make up the text, and the first part has no colon. -/
theorem eq_append_of_splitAtColon {text user branch : List Char}
    (h : splitAtColon text = some (user, branch)) :
    text = user ++ ':' :: branch ∧ ':' ∉ user := by
  induction text generalizing user with
  | nil => cases h
  | cons c rest ih =>
    by_cases hc : c = ':'
    · rw [splitAtColon, if_pos hc] at h
      cases h
      rw [hc]
      exact ⟨rfl, List.not_mem_nil⟩
    · rw [splitAtColon, if_neg hc] at h
      obtain ⟨parts, hrest, hparts⟩ := Option.map_eq_some_iff.mp h
      cases hparts
      obtain ⟨htext, hcolon⟩ := ih hrest
      refine ⟨by rw [htext]; rfl, ?_⟩
      rw [List.mem_cons, not_or]
      exact ⟨Ne.symm hc, hcolon⟩

namespace AccessToken

/-- A grant that can be read is kept as it is written. -/
theorem eq_of_ofText {text : String} {token : AccessToken} (h : ofText text = .ok token) :
    token = ⟨text⟩ := by
  unfold ofText at h
  split at h
  · exact (Except.ok.inj h).symm
  · cases h

/-- The letters of the grant for a target. -/
theorem toList_ofParts (user branch : String) :
    (ofParts user branch).text.toList = user.toList ++ ':' :: branch.toList := by
  simp [ofParts, String.toList_append]

end AccessToken

/-- Stored grants are read as they are written, none is lost and none is added. -/
theorem eq_map_of_readGrants {grants : List String} {tokens : List AccessToken}
    (h : readGrants grants = .ok tokens) : tokens = grants.map AccessToken.mk := by
  induction grants generalizing tokens with
  | nil => exact (Except.ok.inj h).symm
  | cons text rest ih =>
    simp only [readGrants, bind_eq_ok_iff, pure_eq_ok_iff] at h
    obtain ⟨token, htoken, others, hothers, hresult⟩ := h
    rw [← hresult, ih hothers, AccessToken.eq_of_ofText htoken]
    rfl

/-- A party with stored grants holds each of them as it is written, and nothing else. -/
theorem principal_delegated {grants : List String} {p : Principal}
    (h : (Credentials.delegated grants).principal = .ok p) :
    p = .delegated (.ofList (grants.map AccessToken.mk)) := by
  simp only [Credentials.principal, bind_eq_ok_iff, pure_eq_ok_iff] at h
  obtain ⟨tokens, htokens, hresult⟩ := h
  rw [← hresult, eq_map_of_readGrants htokens]

namespace Grants

/-- Some grant, cut at its first colon, is for this account and this branch. -/
def Named (grants : List String) (target : BranchRef) : Prop :=
  ∃ grant ∈ grants, splitAtColon grant.toList = some (target.user.toList, target.branch.toList)

/-- Some grant is the account and the branch joined by a colon. -/
def Spelled (grants : List String) (target : BranchRef) : Prop :=
  ∃ grant ∈ grants, grant.toList = target.user.toList ++ ':' :: target.branch.toList

/-- Some grant spells the target, but its first colon lies within the account. -/
def Leaked (grants : List String) (target : BranchRef) : Prop :=
  ':' ∈ target.user.toList ∧ Spelled grants target

/-- Whether a target is named can be read off the grants. -/
instance (grants : List String) (target : BranchRef) : Decidable (Named grants target) :=
  inferInstanceAs (Decidable (∃ grant ∈ grants, _))

/-- Whether a target is spelled can be read off the grants. -/
instance (grants : List String) (target : BranchRef) : Decidable (Spelled grants target) :=
  inferInstanceAs (Decidable (∃ grant ∈ grants, _))

/-- Whether grants leak to a target can be read off the grants. -/
instance (grants : List String) (target : BranchRef) : Decidable (Leaked grants target) :=
  inferInstanceAs (Decidable (_ ∧ _))

/-- A grant that spells a target names it, unless the account has a colon. -/
theorem named_iff_spelled {grants : List String} {target : BranchRef} :
    Named grants target ↔ ':' ∉ target.user.toList ∧ Spelled grants target := by
  constructor
  · intro hparts
    obtain ⟨grant, hgrant, hcut⟩ := hparts
    obtain ⟨hspelled, hcolon⟩ := eq_append_of_splitAtColon hcut
    exact ⟨hcolon, grant, hgrant, hspelled⟩
  · intro hparts
    obtain ⟨hcolon, grant, hgrant, hspelled⟩ := hparts
    refine ⟨grant, hgrant, ?_⟩
    rw [hspelled]
    exact splitAtColon_append hcolon target.branch.toList

/-- A grant that leaks to a target names a branch of another account. -/
theorem Leaked.named_other {grants : List String} {target : BranchRef}
    (h : Leaked grants target) : ∃ other, other.user ≠ target.user ∧ Named grants other := by
  obtain ⟨hcolon, grant, hgrant, hspelled⟩ := h
  obtain ⟨before, after, huser, hfirst⟩ := List.eq_append_cons_of_mem hcolon
  refine ⟨⟨.ofList before, .ofList (after ++ ':' :: target.branch.toList)⟩, ?_, grant, hgrant, ?_⟩
  · intro hsame
    rw [← String.toList_inj, huser, String.toList_ofList] at hsame
    have hlength := congrArg List.length hsame
    rw [List.length_append, List.length_cons] at hlength
    omega
  · rw [hspelled, huser, List.append_assoc, List.cons_append, String.toList_ofList,
      String.toList_ofList]
    exact splitAtColon_append hfirst _

/-- A party with stored grants reaches exactly the targets that a grant spells. -/
theorem canAccess_iff_spelled {grants : List String} {p : Principal}
    (h : (Credentials.delegated grants).principal = .ok p) (target : BranchRef) :
    p.canAccess target = true ↔ Spelled grants target := by
  have hheld : p.canAccess target = true ↔ target.accessToken ∈ grants.map AccessToken.mk := by
    rw [principal_delegated h]
    simp [Principal.canAccess, Principal.owns, Principal.holds, TokenSet.contains,
      TokenSet.mem_ofList]
  rw [hheld, List.mem_map]
  constructor
  · intro hgranted
    obtain ⟨grant, hgrant, htoken⟩ := hgranted
    refine ⟨grant, hgrant, ?_⟩
    rw [← AccessToken.toList_ofParts, ← BranchRef.accessToken, ← htoken]
  · intro hgranted
    obtain ⟨grant, hgrant, hspelled⟩ := hgranted
    refine ⟨grant, hgrant, ?_⟩
    rw [← AccessToken.toList_ofParts, String.toList_inj] at hspelled
    rw [hspelled]
    rfl

/-- A party with stored grants reaches the targets that its grants name and those that they leak
to; so the grants decide as they are cut exactly where they do not leak. -/
theorem canAccess_iff_named_unless_leaked {grants : List String} {p : Principal}
    (h : (Credentials.delegated grants).principal = .ok p) (target : BranchRef) :
    (p.canAccess target = true ↔ Named grants target ∨ Leaked grants target) ∧
      ((p.canAccess target = true ↔ Named grants target) ↔ ¬ Leaked grants target) := by
  rw [canAccess_iff_spelled h]
  by_cases hcolon : ':' ∈ target.user.toList
  · -- no grant is cut behind a colon, so every access through a spelled grant is a leak
    have hleaked : Leaked grants target ↔ Spelled grants target := and_iff_right hcolon
    have hnamed : ¬ Named grants target := by
      rw [named_iff_spelled]
      intro hparts
      obtain ⟨hnone, -⟩ := hparts
      exact hnone hcolon
    rw [hleaked]
    constructor
    · simp [hnamed]
    · simp [hnamed]
  · have hleaked : ¬ Leaked grants target := by
      intro hparts
      obtain ⟨hsome, -⟩ := hparts
      exact hcolon hsome
    have hnamed : Named grants target ↔ Spelled grants target := by
      rw [named_iff_spelled]
      exact and_iff_right hcolon
    rw [hnamed]
    constructor
    · simp [hleaked]
    · simp [hleaked]

/-- A party that was granted `dev:main` of `alice`. -/
def devMain : Principal := .delegated (.ofList [⟨"alice:dev:main"⟩])

/-- What the grant for `dev:main` of `alice` means for `main` of `alice:dev`. -/
theorem devMain_canAccess_iff :
    (Credentials.delegated ["alice:dev:main"]).principal = .ok devMain ∧
      (devMain.canAccess ⟨"alice:dev", "main"⟩ = true ↔
        Named ["alice:dev:main"] ⟨"alice:dev", "main"⟩ ∨
          Leaked ["alice:dev:main"] ⟨"alice:dev", "main"⟩) ∧
      ((devMain.canAccess ⟨"alice:dev", "main"⟩ = true ↔
        Named ["alice:dev:main"] ⟨"alice:dev", "main"⟩) ↔
          ¬ Leaked ["alice:dev:main"] ⟨"alice:dev", "main"⟩) :=
  ⟨rfl, canAccess_iff_named_unless_leaked rfl ⟨"alice:dev", "main"⟩⟩

/-- The grant for `dev:main` of `alice` lets its holder into `main` of `alice:dev`, a target that
it does not name. -/
theorem devMain_leaks :
    (Credentials.delegated ["alice:dev:main"]).principal = .ok devMain ∧
      ¬ (devMain.canAccess ⟨"alice:dev", "main"⟩ = true ↔
        Named ["alice:dev:main"] ⟨"alice:dev", "main"⟩) :=
  ⟨rfl, by decide⟩

end Grants

end BranchSync
