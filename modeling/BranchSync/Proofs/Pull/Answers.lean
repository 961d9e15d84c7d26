import BranchSync.Proofs.Document.Answering
import BranchSync.Proofs.Document.Headers
import BranchSync.Proofs.Identifier.References
import BranchSync.Proofs.Payload.Transfer
import BranchSync.Proofs.Pull.Serving
import BranchSync.Proofs.Repository.FirstOccurrence

/-!
# What a client sees of a pull

A pull is refused without a response, or it gets one result that shows a tip and the text of a pack.
The result does not say whether the export failed, but the client can tell: if it named a base, the
export failed exactly when it is shown the empty tip, and without a base no export fails. After an
export that succeeded, the tip is the one that the branch has, and the pack holds the commits between
the base and that tip, as far back as the policy exports.
-/

namespace BranchSync

/-- The response shows a tip and the text of a pack: it is one result with the two stanzas of a
pull. -/
def Response.ShowsPull (response : Response) (tip text : String) : Prop :=
  ∃ head body, response = .result [head, body] ∧
    head.name = Vocabulary.syncPull ∧ head.attribute? Vocabulary.tip = some tip ∧
    body.name = Vocabulary.pack ∧ body.text = some text

/-- What the answer to a pull tells a client that sent a base, about the history of the branch. -/
structure PullAnswer.Reports (answer : PullAnswer) (base : String) (history : List CommitId)
    (depth : Depth) (tip text : String) : Prop where
  shows : answer.response.ShowsPull tip text
  degraded_iff : (∃ cause, answer.outcome = .degraded cause) ↔ base ≠ "" ∧ tip = ""
  text_of_degraded : ∀ cause, answer.outcome = .degraded cause → text = ""
  served : ∀ current length, answer.outcome = .served current length →
    Tip.ofHex tip = .ok current ∧ current = .ofHistory history ∧
    ∃ known sent, TipRef.ofText base = .tip known ∧
      Repository.Exports history known current depth sent ∧
      Payload.decode text = .ok (Pack.encode sent) ∧ (Pack.encode sent).length = length

namespace PullRequest

variable {request : PullRequest} {base : String} {history : List CommitId} {depth : Depth}

/-- The response to a pull shows the tip and the pack that it was made from. -/
theorem respond_showsPull (request : PullRequest) (tip : Tip) (pack : List UInt8) :
    (request.respond tip pack).ShowsPull tip.toHex (Payload.encode pack) :=
  ⟨_, _, rfl, rfl, rfl, rfl, rfl⟩

/-- Without a base, no export to the tip of the branch fails. -/
theorem exportCommits_ne_error (hbase : request.base = .tip .empty) (cause : RepositoryError) :
    Repository.exportCommits history request.target.branch request.base (.ofHistory history)
      depth ≠ .error cause := by
  obtain ⟨n, hn⟩ := Repository.exists_position?_ofHistory history
  have hstart : Repository.position? history .empty = some 0 := rfl
  rw [hbase, Repository.exportCommits_of_positions hstart hn (Nat.zero_le n)]
  exact fun h => by cases h

/-- A failed export is reported as such. -/
theorem reports_degrade (hbase : request.base = .ofText base) {cause : RepositoryError}
    (hexport : Repository.exportCommits history request.target.branch request.base
      (.ofHistory history) depth = .error cause) :
    (request.degrade cause).Reports base history depth "" "" where
  shows := request.respond_showsPull .empty []
  degraded_iff := by
    have hnamed : base ≠ "" := by
      intro hempty
      rw [hempty] at hbase
      exact exportCommits_ne_error hbase cause hexport
    exact ⟨fun _ => ⟨hnamed, rfl⟩, fun _ => ⟨cause, rfl⟩⟩
  text_of_degraded := fun _ _ => rfl
  served := fun _ _ h => by cases h

/-- An export that succeeded is reported with the tip of the branch and what it sent. -/
theorem reports_serve (hbase : request.base = .ofText base) {sent : List CommitId}
    (hexport : Repository.exportCommits history request.target.branch request.base
      (.ofHistory history) depth = .ok sent) :
    (request.serve (.ofHistory history) (Pack.encode sent)).Reports base history depth
      (Tip.ofHistory history).toHex (Payload.encode (Pack.encode sent)) := by
  obtain ⟨known, hknown, hexports⟩ := Repository.exports_of_exportCommits hexport
  refine ⟨request.respond_showsPull _ _, ?_, ?_, ?_⟩
  · constructor
    · intro h
      obtain ⟨cause, hcause⟩ := h
      cases hcause
    · intro h
      obtain ⟨hnamed, htip⟩ := h
      -- the empty tip is the tip of the empty history, where no commit is found
      rw [Tip.toHex_eq_empty_iff, Tip.ofHistory_eq_empty_iff] at htip
      have hempty : known = .empty := hexports.base_eq_empty htip
      rw [hempty, hbase, TipRef.ofText_eq_empty_iff] at hknown
      exact absurd hknown hnamed
  · intro cause h
    cases h
  · intro current length h
    cases h
    exact ⟨Tip.ofHex_toHex _, rfl, known, sent, hbase ▸ hknown, hexports,
      Payload.decode_encode _, rfl⟩

/-- The answer to a pull reports how the export from the history of the branch went. -/
theorem exists_reports_answerFrom (hbase : request.base = .ofText base) (history : List CommitId)
    (depth : Depth) :
    ∃ tip text, (request.answerFrom history depth).Reports base history depth tip text := by
  unfold answerFrom
  cases hexport : Repository.exportCommits history request.target.branch request.base
      (.ofHistory history) depth with
  | error cause => exact ⟨_, _, reports_degrade hbase hexport⟩
  | ok sent => exact ⟨_, _, reports_serve hbase hexport⟩

end PullRequest

/-- A pull is refused without a response if it is malformed, if the principal may not touch the
branch, or if the account has no repository. Otherwise it gets one result, by which the client that
sent the pull can tell whether the export failed, and which holds what was exported. -/
theorem pull_refused_or_reported (context : SyncContext) (responses : List Response)
    (attributes : Table String) (a : Accounts) :
    let element : Element := ⟨Vocabulary.syncPull, attributes⟩
    let pulled := (handlePull context element).run Accounts.answer a
    let handled := ((Session.idle context responses).handleEvent (.openTag element)).run
      Accounts.answer a
    ((∀ target base, element.Pulls target base → context.principal.canAccess target = true →
        a.repositories.get? target.user = none) ∧
      ∃ e, pulled = (.error e, a) ∧
        handled = ((.error e, ⟨context, 1, none, responses⟩), a)) ∨
    ∃ target base answer tip text, element.Pulls target base ∧
      context.principal.canAccess target = true ∧
      (a.repositories.get? target.user).isSome = true ∧
      pulled = (.ok answer, a) ∧
      handled = ((.ok (), ⟨context, 1, none, responses ++ [answer.response]⟩), a) ∧
      answer.Reports base (a.history target) context.policy.exportDepth tip text := by
  intro element pulled handled
  have hpulled : pulled = _ := run_handlePull context element a
  cases hrequest : PullRequest.ofElement element with
  | error e =>
    rw [hrequest] at hpulled
    refine Or.inl ⟨?_, e, hpulled, Session.run_handleEvent_pull_error context responses rfl hpulled⟩
    intro target base hpulls
    rw [hpulls.ofElement_eq] at hrequest
    cases hrequest
  | ok request =>
    obtain ⟨base, hbase, hpulls⟩ := Element.exists_pulls rfl hrequest
    have honly {target : BranchRef} {other : String} (hother : element.Pulls target other) :
        target = request.target := by
      rw [hother.ofElement_eq] at hrequest
      rw [← Except.ok.inj hrequest]
    rw [hrequest] at hpulled
    by_cases haccess : context.principal.canAccess request.target = true
    · cases hr : a.repositories.get? request.target.user with
      | none =>
        simp only [haccess, hr, if_true, Option.isSome_none, Bool.false_eq_true, if_false]
          at hpulled
        refine Or.inl ⟨?_, _, hpulled,
          Session.run_handleEvent_pull_error context responses rfl hpulled⟩
        intro target other hother _
        rw [honly hother, hr]
      | some r =>
        simp only [haccess, hr, if_true, Option.isSome_some] at hpulled
        obtain ⟨tip, text, hreports⟩ := PullRequest.exists_reports_answerFrom hbase
          (a.history request.target) context.policy.exportDepth
        exact Or.inr ⟨request.target, base, _, tip, text, hpulls, haccess, by rw [hr]; rfl, hpulled,
          Session.run_handleEvent_pull context responses rfl hpulled, hreports⟩
    · simp only [haccess, if_false, Bool.false_eq_true] at hpulled
      refine Or.inl ⟨?_, _, hpulled,
        Session.run_handleEvent_pull_error context responses rfl hpulled⟩
      intro target other hother hallowed
      rw [honly hother] at hallowed
      exact absurd hallowed haccess

end BranchSync
