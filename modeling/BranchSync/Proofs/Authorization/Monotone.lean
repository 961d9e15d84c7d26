import BranchSync.Proofs.Document.Replies
import BranchSync.Proofs.Session.Atomicity
import BranchSync.Proofs.Session.Noninterference

/-!
# More grants take nothing away

A party is given more grants, and the same document is answered over the same accounts. Requests
that were refused may now be granted, and pushes among them change the accounts before the next
request is answered. None of this reaches a branch that the party could touch before: a request for
such a branch gets the same reply, and its history ends up the same.

The two runs are compared by what the party can see with the smaller set of grants. A request within
it is answered alike over accounts that agree in this view, and one beyond it does not change the
view, whether it is granted or not.
-/

namespace BranchSync

open Accounts (Agree)

/-- Whatever a set of grants opens, a larger one opens as well. -/
theorem Principal.canAccess_of_subset {grants more : TokenSet}
    (h : ∀ token ∈ grants.tokens, token ∈ more.tokens) {target : BranchRef}
    (haccess : (Principal.delegated grants).canAccess target = true) :
    (Principal.delegated more).canAccess target = true := by
  simp only [canAccess, owns, holds, TokenSet.contains, Bool.false_or,
    decide_eq_true_eq] at haccess ⊢
  exact h _ haccess

namespace Accounts

variable {principal : Principal} {a b c : Accounts}

/-- Accounts agree with themselves. -/
theorem Agree.refl (principal : Principal) (a : Accounts) : Agree principal a a :=
  ⟨fun _ _ => rfl, fun _ _ => rfl⟩

/-- Accounts that agree with the same accounts agree. -/
theorem Agree.trans (h : Agree principal a b) (h' : Agree principal b c) : Agree principal a c where
  repository_eq := by
    intro target haccess
    rw [h.repository_eq target haccess, h'.repository_eq target haccess]
  history_eq := by
    intro target haccess
    rw [h.history_eq target haccess, h'.history_eq target haccess]

end Accounts

namespace PushRequest

/-- A push is answered alike for all who may touch the branch alike and own the account alike. -/
theorem run_finalize_congr {request : PushRequest} (context other : SyncContext)
    (haccess : context.principal.canAccess request.target =
      other.principal.canAccess request.target)
    (howns : context.principal.owns request.target.user = other.principal.owns request.target.user)
    (fault : Option ProtocolError) (a : Accounts) :
    (request.finalize context fault).run Accounts.answer a =
      (request.finalize other fault).run Accounts.answer a := by
  have hafter (r : Repository) : a.afterPush context.principal request.target r =
      a.afterPush other.principal request.target r := by
    rw [Accounts.afterPush, Accounts.afterPush, howns]
  simp only [run_finalize, haccess, hafter]

/-- Without access a push is refused and changes nothing. -/
theorem run_finalize_of_denied {request : PushRequest} (context : SyncContext)
    (hdenied : context.principal.canAccess request.target = false) (fault : Option ProtocolError)
    (a : Accounts) :
    (request.finalize context fault).run Accounts.answer a = (refuse .accessDenied, a) := by
  rw [run_finalize, hdenied]
  rfl

/-- A push, whoever makes it, changes nothing for a principal that cannot touch its branch. -/
theorem agree_finalize_of_denied {request : PushRequest} {principal : Principal}
    (hdenied : principal.canAccess request.target = false) (context : SyncContext)
    (fault : Option ProtocolError) (a : Accounts) :
    Agree principal a ((request.finalize context fault).run Accounts.answer a).2 := by
  rcases finalize_cases request context fault a with
    ⟨failure, hrun⟩ | ⟨r, r', -, hr, himport, hrun⟩
  · rw [hrun]
    exact .refl principal a
  · obtain ⟨commits, -, -, -, -, -, hr'⟩ := Repository.importPack_eq_ok_iff.mp himport
    rw [hrun]
    constructor
    · intro target haccess
      exact (Accounts.repositories_isSome_afterPush hr context.principal r' target.user).symm
    · intro target haccess
      have hne : target ≠ request.target := by
        intro hsame
        rw [hsame, hdenied] at haccess
        cases haccess
      rw [hr', Accounts.history_afterPush hr, if_neg hne]

end PushRequest

namespace Document

/-- A push with its payload, as it is finalized for anyone. -/
theorem exists_finalizeWith_eq (request : PushRequest)
    (payload : Option (Except ProtocolError (List UInt8))) :
    ∃ (carried : PushRequest) (fault : Option ProtocolError), carried.target = request.target ∧
      ∀ context, finalizeWith context request payload = carried.finalize context fault := by
  rcases payload with _ | fault | pack
  · exact ⟨request, none, rfl, fun _ => rfl⟩
  · exact ⟨request, some fault, rfl, fun _ => rfl⟩
  · exact ⟨{ request with pack := some pack }, none, rfl, fun _ => rfl⟩

variable {grants more : TokenSet} (policy : SyncPolicy) {a b : Accounts}

/-- Over accounts that agree for the smaller set of grants, a pull within it is answered alike for
both, and no pull changes anything. -/
theorem pull_of_subset (h : ∀ token ∈ grants.tokens, token ∈ more.tokens)
    (hagree : Agree (.delegated grants) a b) (head : Element) :
    let first := (handlePull ⟨.delegated grants, policy⟩ head).run Accounts.answer a
    let second := (handlePull ⟨.delegated more, policy⟩ head).run Accounts.answer b
    Agree (.delegated grants) first.2 second.2 ∧
      ((∀ request, PullRequest.ofElement head = .ok request →
        (Principal.delegated grants).canAccess request.target = true) → first.1 = second.1) := by
  intro first second
  simp only [first, second, run_handlePull]
  refine ⟨hagree, ?_⟩
  intro hwithin
  cases hrequest : PullRequest.ofElement head with
  | error e => rfl
  | ok request =>
    have haccess := hwithin request hrequest
    dsimp only
    rw [if_pos haccess, if_pos (Principal.canAccess_of_subset h haccess),
      hagree.repository_eq _ haccess, hagree.history_eq _ haccess]

/-- Over accounts that agree for the smaller set of grants, a push within it is answered alike for
both, and the accounts agree after any push. -/
theorem push_of_subset (h : ∀ token ∈ grants.tokens, token ∈ more.tokens)
    (hagree : Agree (.delegated grants) a b) (request : PushRequest)
    (payload : Option (Except ProtocolError (List UInt8))) :
    let first := (finalizeWith ⟨.delegated grants, policy⟩ request payload).run Accounts.answer a
    let second := (finalizeWith ⟨.delegated more, policy⟩ request payload).run Accounts.answer b
    Agree (.delegated grants) first.2 second.2 ∧
      ((Principal.delegated grants).canAccess request.target = true → first.1 = second.1) := by
  intro first second
  obtain ⟨carried, fault, htarget, hfinalize⟩ := exists_finalizeWith_eq request payload
  simp only [first, second, hfinalize]
  rw [← htarget]
  cases haccess : (Principal.delegated grants).canAccess carried.target with
  | true =>
    -- the second run may be read as one with the smaller set of grants
    have hmore := Principal.canAccess_of_subset h haccess
    have hsame : (carried.finalize ⟨.delegated more, policy⟩ fault).run Accounts.answer b =
        (carried.finalize ⟨.delegated grants, policy⟩ fault).run Accounts.answer b :=
      PushRequest.run_finalize_congr ⟨.delegated more, policy⟩ ⟨.delegated grants, policy⟩
        (hmore.trans haccess.symm) rfl fault b
    have hview : Agree (SyncContext.mk (.delegated grants) policy).principal a b := hagree
    obtain ⟨hanswer, hafter⟩ := PushRequest.run_finalize_of_agree hview carried fault
    rw [hsame]
    exact ⟨hafter, fun _ => hanswer⟩
  | false =>
    -- the second run may let the push through, beyond what the first party can see
    have hrefused :=
      PushRequest.run_finalize_of_denied ⟨.delegated grants, policy⟩ haccess fault a
    have hother := PushRequest.agree_finalize_of_denied haccess ⟨.delegated more, policy⟩ fault b
    rw [hrefused]
    exact ⟨hagree.trans hother, fun hno => by cases hno⟩

/-- Over accounts that agree for the smaller set of grants, a request within it gets the same reply
for both, and the accounts agree after any request. -/
theorem replyTo_of_subset (h : ∀ token ∈ grants.tokens, token ∈ more.tokens)
    (hagree : Agree (.delegated grants) a b) (head : Element) (children : List Node) :
    let first := (replyTo ⟨.delegated grants, policy⟩ head children).run Accounts.answer a
    let second := (replyTo ⟨.delegated more, policy⟩ head children).run Accounts.answer b
    Agree (.delegated grants) first.2 second.2 ∧
      ((∀ target, target? head = some target →
        (Principal.delegated grants).canAccess target = true) → first.1 = second.1) := by
  intro first second
  simp only [first, second, replyTo, target?]
  by_cases hpull : head.name = Vocabulary.syncPull
  · obtain ⟨hafter, hanswer⟩ := pull_of_subset policy h hagree head
    simp only [if_pos hpull, BackendProgram.run_bind, BackendProgram.run_pure]
    refine ⟨hafter, ?_⟩
    intro hwithin
    rw [hanswer]
    intro request hrequest
    exact hwithin request.target (by rw [hrequest]; rfl)
  · simp only [if_neg hpull]
    by_cases hpush : head.name = Vocabulary.syncPush
    · simp only [if_pos hpush]
      cases hrequest : PushRequest.ofElement head with
      | error e => exact ⟨hagree, fun _ => rfl⟩
      | ok request =>
        obtain ⟨hafter, hanswer⟩ := push_of_subset policy h hagree request
          (Node.payload? policy.maxPayloadSize children)
        simp only [BackendProgram.run_bind, BackendProgram.run_pure]
        refine ⟨hafter, ?_⟩
        intro hwithin
        rw [hanswer (hwithin request.target rfl)]
    · simp only [if_neg hpush]
      exact ⟨hagree, fun _ => rfl⟩

/-- Over accounts that agree for the smaller set of grants, requests in a row get the same replies
wherever they are within it, and the accounts agree in the end. -/
theorem repliesTo_of_subset (h : ∀ token ∈ grants.tokens, token ∈ more.tokens)
    (hagree : Agree (.delegated grants) a b) (elements : List (Element × List Node)) :
    let first := (repliesTo ⟨.delegated grants, policy⟩ elements).run Accounts.answer a
    let second := (repliesTo ⟨.delegated more, policy⟩ elements).run Accounts.answer b
    Agree (.delegated grants) first.2 second.2 ∧
      ∀ (k : Nat) (head : Element) (children : List Node), elements[k]? = some (head, children) →
        (∀ target, target? head = some target →
          (Principal.delegated grants).canAccess target = true) →
        ∃ reply, first.1[k]? = some reply ∧ second.1[k]? = some reply := by
  induction elements generalizing a b with
  | nil =>
    refine ⟨hagree, ?_⟩
    intro k head children hk
    cases hk
  | cons e rest ih =>
    obtain ⟨head, children⟩ := e
    obtain ⟨hafter, hreply⟩ := replyTo_of_subset policy h hagree head children
    obtain ⟨hend, hrest⟩ := ih hafter
    simp only [repliesTo, List.mapM_cons, BackendProgram.run_bind, BackendProgram.run_pure]
    refine ⟨hend, ?_⟩
    intro k head' children' hk hwithin
    cases k with
    | zero =>
      cases hk
      exact ⟨_, rfl, congrArg some (hreply hwithin).symm⟩
    | succ k => exact hrest k head' children' hk hwithin

/-- A document is answered for a party and for a party that holds all its grants and perhaps more,
over the same accounts. Fed to their sessions it gives the responses, the result and the accounts of
the replies. Every request for a branch that the first party can touch, and every one that names no
branch, gets the same reply in both runs, outcome and response or error, and every branch that the
first party can touch ends with the same history. -/
theorem replies_monotone {grants more : TokenSet}
    (h : ∀ token ∈ grants.tokens, token ∈ more.tokens) (policy : SyncPolicy) (nodes : List Node)
    (accounts : Accounts) :
    let first := (replies ⟨.delegated grants, policy⟩ nodes).run Accounts.answer accounts
    let second := (replies ⟨.delegated more, policy⟩ nodes).run Accounts.answer accounts
    (((Session.new ⟨.delegated grants, policy⟩).handleEvents (Node.eventsOf nodes)).run
        Accounts.answer accounts =
      (Session.settled ⟨.delegated grants, policy⟩ []
        (first.1.map fun reply => reply.map Reply.response), first.2)) ∧
    (((Session.new ⟨.delegated more, policy⟩).handleEvents (Node.eventsOf nodes)).run
        Accounts.answer accounts =
      (Session.settled ⟨.delegated more, policy⟩ []
        (second.1.map fun reply => reply.map Reply.response), second.2)) ∧
    (∀ (k : Nat) (head : Element) (children : List Node),
      (Node.elements nodes)[k]? = some (head, children) →
      (∀ target, target? head = some target →
        (Principal.delegated grants).canAccess target = true) →
      ∃ reply, first.1[k]? = some reply ∧ second.1[k]? = some reply) ∧
    ∀ target, (Principal.delegated grants).canAccess target = true →
      first.2.history target = second.2.history target := by
  intro first second
  obtain ⟨hagree, hreplies⟩ := repliesTo_of_subset policy h
    (.refl (.delegated grants) accounts) (Node.elements nodes)
  refine ⟨?_, ?_, hreplies, hagree.history_eq⟩
  · exact Session.run_handleEvents_replies _ nodes Accounts.answer accounts
  · exact Session.run_handleEvents_replies _ nodes Accounts.answer accounts

/-- A push of one commit to `dev` of `alice`. -/
def devPush : Node :=
  .element (.ofAttributes Vocabulary.syncPush [(Vocabulary.branch, "dev"),
      (Vocabulary.startCommit, ""), (Vocabulary.lastCommit, (CommitId.uniform 7).toHex),
      (Vocabulary.serverUser, "alice")])
    [.element (.ofAttributes Vocabulary.pack [])
      [.text (Payload.encode (Pack.encode [CommitId.uniform 7]))]]

/-- With a grant for `dev` besides the one for `main`, a push to `dev` is let through; a push to
`main` after it is answered as it is without. -/
theorem devPush_leaves_main :
    let grants : TokenSet := .ofList [.ofParts "alice" "main"]
    let more : TokenSet := .ofList [.ofParts "alice" "main", .ofParts "alice" "dev"]
    let nodes := [devPush, .element Session.emptyPush []]
    let accounts := Accounts.empty.addAccount "alice"
    let first := (replies ⟨.delegated grants, .default⟩ nodes).run Accounts.answer accounts
    let second := (replies ⟨.delegated more, .default⟩ nodes).run Accounts.answer accounts
    first.2.history ⟨"alice", "dev"⟩ ≠ second.2.history ⟨"alice", "dev"⟩ ∧
      first.2.history ⟨"alice", "main"⟩ = second.2.history ⟨"alice", "main"⟩ ∧
      ∃ reply, first.1[1]? = some reply ∧ second.1[1]? = some reply := by
  intro grants more nodes accounts first second
  have hsubset : ∀ token ∈ grants.tokens, token ∈ more.tokens := by decide
  obtain ⟨-, -, hreplies, hhistory⟩ := replies_monotone hsubset .default nodes accounts
  refine ⟨by decide +kernel, hhistory ⟨"alice", "main"⟩ (by decide), ?_⟩
  refine hreplies 1 Session.emptyPush [] rfl ?_
  intro target htarget
  have hmain : target? Session.emptyPush = some ⟨"alice", "main"⟩ := rfl
  rw [hmain, Option.some.injEq] at htarget
  rw [← htarget]
  decide

end Document

end BranchSync
