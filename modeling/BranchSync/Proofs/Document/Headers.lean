import BranchSync.Proofs.Checks
import BranchSync.Pull
import BranchSync.Push.Request

/-!
# What the attributes of a request say

A pull and a push are told apart by their names and read from their attributes. An element may
carry other attributes besides; they do not matter. An element without one of the attributes that
it has to have is malformed, and that is the only way to misread it.
-/

namespace BranchSync

namespace Element

/-- The element is a pull of a branch from a base. -/
structure Pulls (e : Element) (target : BranchRef) (base : String) : Prop where
  name_eq : e.name = Vocabulary.syncPull
  branch_eq : e.attribute? Vocabulary.branch = some target.branch
  user_eq : e.attribute? Vocabulary.serverUser = some target.user
  base_eq : e.attribute? Vocabulary.base = some base

/-- The element is the header of a push to a branch that leads from one tip to another. -/
structure Pushes (e : Element) (target : BranchRef) (start last : String) : Prop where
  name_eq : e.name = Vocabulary.syncPush
  branch_eq : e.attribute? Vocabulary.branch = some target.branch
  user_eq : e.attribute? Vocabulary.serverUser = some target.user
  start_eq : e.attribute? Vocabulary.startCommit = some start
  last_eq : e.attribute? Vocabulary.lastCommit = some last

/-- An attribute that is present is found. -/
theorem require_eq_ok {e : Element} {key value : String} (h : e.attribute? key = some value) :
    e.require key = .ok value := by
  rw [require, h]

variable {e : Element} {target : BranchRef}

/-- A pull is read as the request that its attributes say. -/
theorem Pulls.ofElement_eq {base : String} (h : e.Pulls target base) :
    PullRequest.ofElement e = .ok ⟨target, .ofText base⟩ := by
  rw [PullRequest.ofElement, require_eq_ok h.branch_eq, require_eq_ok h.user_eq,
    require_eq_ok h.base_eq]
  rfl

/-- The header of a push is read as the request that its attributes say. -/
theorem Pushes.ofElement_eq {start last : String} (h : e.Pushes target start last) :
    PushRequest.ofElement e = .ok ⟨target, .ofText start, .ofText last, none⟩ := by
  rw [PushRequest.ofElement, require_eq_ok h.branch_eq, require_eq_ok h.start_eq,
    require_eq_ok h.last_eq, require_eq_ok h.user_eq]
  rfl

end Element

/-- An attribute that has to be present is read exactly if it is. -/
theorem requireAttribute_eq_ok_iff {e : Element} {key value : String} :
    requireAttribute (e.require key) = .ok value ↔ e.attribute? key = some value := by
  unfold Element.require
  cases e.attribute? key <;> simp [requireAttribute]

/-- A request that is read from a pull is what the pull says. -/
theorem Element.exists_pulls {e : Element} {request : PullRequest}
    (hname : e.name = Vocabulary.syncPull) (h : PullRequest.ofElement e = .ok request) :
    ∃ base, request.base = .ofText base ∧ e.Pulls request.target base := by
  simp only [PullRequest.ofElement, bind_eq_ok_iff, requireAttribute_eq_ok_iff,
    pure_eq_ok_iff] at h
  obtain ⟨branch, hbranch, user, huser, base, hbase, rfl⟩ := h
  exact ⟨base, rfl, hname, hbranch, huser, hbase⟩

/-- An attribute that is missing makes a request malformed. -/
theorem requireAttribute_eq_error {value : Except ProtocolError String} {e : SyncError}
    (h : requireAttribute value = .error e) : ∃ cause, e = .malformedRequest cause := by
  cases value with
  | ok value => cases h
  | error cause => exact ⟨cause, (Except.error.inj h).symm⟩

/-- A pull that cannot be read is malformed. -/
theorem PullRequest.ofElement_eq_error {element : Element} {e : SyncError}
    (h : PullRequest.ofElement element = .error e) : ∃ cause, e = .malformedRequest cause := by
  rcases bind_eq_error_iff.mp h with h | ⟨branch, -, h⟩
  · exact requireAttribute_eq_error h
  rcases bind_eq_error_iff.mp h with h | ⟨user, -, h⟩
  · exact requireAttribute_eq_error h
  rcases bind_eq_error_iff.mp h with h | ⟨base, -, h⟩
  · exact requireAttribute_eq_error h
  · cases h

/-- The header of a push that cannot be read is malformed. -/
theorem PushRequest.ofElement_eq_error {element : Element} {e : SyncError}
    (h : PushRequest.ofElement element = .error e) : ∃ cause, e = .malformedRequest cause := by
  rcases bind_eq_error_iff.mp h with h | ⟨branch, -, h⟩
  · exact requireAttribute_eq_error h
  rcases bind_eq_error_iff.mp h with h | ⟨start, -, h⟩
  · exact requireAttribute_eq_error h
  rcases bind_eq_error_iff.mp h with h | ⟨last, -, h⟩
  · exact requireAttribute_eq_error h
  rcases bind_eq_error_iff.mp h with h | ⟨user, -, h⟩
  · exact requireAttribute_eq_error h
  · cases h

end BranchSync
