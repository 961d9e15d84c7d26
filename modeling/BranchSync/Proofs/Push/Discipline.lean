import BranchSync.Proofs.Push.Conversation

/-!
# The discipline of a push

Whatever a storage replies, the calls of a push keep to an order: the pack is imported once, the
mailbox of the owner is told the tip that was read after the import, and what the mailbox was told
is made visible if it was new. The push is accepted with that tip, and it is refused if the import
fails or the tip cannot be read. What is only read before the import does not matter, so all of this
is proved for the transfer and carried over to the whole push.
-/

namespace BranchSync.PushRequest

open Exchange

/-- What a push imports is what it carries, and it imports it at most once. -/
structure ImportsOnce (request : PushRequest) (log : List Exchange) : Prop where
  import_eq : ∀ x ∈ log, x.call.kind = .importPack → ∃ reply, x = importFor request reply
  imports_le : (log.countP fun x => x.call.kind = .importPack) ≤ 1

/-- A mailbox is told at most once, only of a push by someone else, and only the tip that was read
right after the import had succeeded. -/
structure TellsAfterImport (request : PushRequest) (principal : Principal) (log : List Exchange) :
    Prop where
  tell_eq : ∀ x ∈ log, x.call.kind = .updateChannelTip →
    principal.owns request.target.user = false ∧ ∃ tip reply, x = tellTip request.target tip reply ∧
      [importFor request (.ok ()), tipOf request.target (.ok tip), mailboxOf request.target true, x]
        <:+: log
  tells_le : (log.countP fun x => x.call.kind = .updateChannelTip) ≤ 1

/-- What a mailbox was told is made visible right after the mailbox found it new, and never
otherwise. -/
structure CommitsAfterTell (request : PushRequest) (log : List Exchange) : Prop where
  commit_eq : ∀ x ∈ log, x.call.kind = .commitMailbox →
    ∃ tip reply, x = commit request.target reply ∧
      [tellTip request.target tip (.ok true), x] <:+: log
  commits_le : (log.countP fun x => x.call.kind = .commitMailbox) ≤ 1
  committed : ∀ tip, tellTip request.target tip (.ok true) ∈ log →
    ∃ reply, [tellTip request.target tip (.ok true), commit request.target reply] <:+: log

/-- A push whose import succeeds is accepted with the tip that is read after it; if there is no such
tip, it is refused. -/
structure AnswersImport (request : PushRequest) (log : List Exchange) (response : Response) :
    Prop where
  accepted : ∀ tip,
    [importFor request (.ok ()), tipOf request.target (.ok tip)] <:+: log →
      response = (request.accept tip).response
  refused : (∀ tip, ¬ [importFor request (.ok ()), tipOf request.target (.ok tip)] <:+: log) →
    ∃ failure : PushFailure, response = .error failure.message

/-- What the calls of a push and the response to it keep to, whoever answers the calls. -/
structure Disciplined (request : PushRequest) (principal : Principal) (log : List Exchange)
    (response : Response) : Prop extends ImportsOnce request log,
    TellsAfterImport request principal log, CommitsAfterTell request log,
    AnswersImport request log response

variable {request : PushRequest} {principal : Principal} {log : List Exchange}
  {response : Response} {answer : PushAnswer}

/-! ### Calls before the transfer -/

/-- A refusal without a call is disciplined. -/
theorem disciplined_nil (failure : PushFailure) :
    request.Disciplined principal [] (refuse failure).response where
  import_eq := by simp
  imports_le := by simp
  tell_eq := by simp
  tells_le := by simp
  commit_eq := by simp
  commits_le := by simp
  committed := by simp
  accepted := by simp
  refused := fun _ => ⟨failure, rfl⟩

section Reads

variable {front : List Exchange} (hfront : ∀ x ∈ front, x.call.kind.reads = true)
include hfront

/-- What is imported does not depend on what is read before. -/
theorem ImportsOnce.after_reads (h : request.ImportsOnce log) :
    request.ImportsOnce (front ++ log) := by
  constructor
  · intro x hx hkind
    exact h.import_eq x (mem_of_mem_append_of_reads hfront hx (by rw [hkind]; rfl)) hkind
  · rw [countP_append_of_reads hfront rfl]
    exact h.imports_le

/-- What is told does not depend on what is read before. -/
theorem TellsAfterImport.after_reads (h : request.TellsAfterImport principal log) :
    request.TellsAfterImport principal (front ++ log) := by
  constructor
  · intro x hx hkind
    obtain ⟨howns, tip, reply, hsame, hafter⟩ :=
      h.tell_eq x (mem_of_mem_append_of_reads hfront hx (by rw [hkind]; rfl)) hkind
    exact ⟨howns, tip, reply, hsame, hafter.trans (List.suffix_append front log).isInfix⟩
  · rw [countP_append_of_reads hfront rfl]
    exact h.tells_le

/-- What is made visible does not depend on what is read before. -/
theorem CommitsAfterTell.after_reads (h : request.CommitsAfterTell log) :
    request.CommitsAfterTell (front ++ log) := by
  refine ⟨?_, ?_, ?_⟩
  · intro x hx hkind
    obtain ⟨tip, reply, hsame, hafter⟩ :=
      h.commit_eq x (mem_of_mem_append_of_reads hfront hx (by rw [hkind]; rfl)) hkind
    exact ⟨tip, reply, hsame, hafter.trans (List.suffix_append front log).isInfix⟩
  · rw [countP_append_of_reads hfront rfl]
    exact h.commits_le
  · intro tip htold
    obtain ⟨reply, hafter⟩ := h.committed tip (mem_of_mem_append_of_reads hfront htold rfl)
    exact ⟨reply, hafter.trans (List.suffix_append front log).isInfix⟩

/-- The response does not depend on what is read before the import. -/
theorem AnswersImport.after_reads (h : request.AnswersImport log response) :
    request.AnswersImport (front ++ log) response := by
  constructor
  · intro tip hread
    exact h.accepted tip (infix_of_infix_append_of_reads hfront rfl hread)
  · intro hunread
    exact h.refused fun tip hread =>
      hunread tip (hread.trans (List.suffix_append front log).isInfix)

/-- What is only read before the calls of a push does not matter. -/
theorem Disciplined.after_reads (h : request.Disciplined principal log response) :
    request.Disciplined principal (front ++ log) response :=
  ⟨h.toImportsOnce.after_reads hfront, h.toTellsAfterImport.after_reads hfront,
    h.toCommitsAfterTell.after_reads hfront, h.toAnswersImport.after_reads hfront⟩

end Reads

/-! ### The transfer -/

/-- The notification of the owner imports nothing. -/
theorem Notified.kind_ne_importPack {target : BranchRef} {tip : Tip} {notice : List Exchange}
    (h : Notified target tip notice) : ∀ x ∈ notice, x.call.kind ≠ .importPack := by
  cases h <;> simp [mailboxOf, tellTip, commit, BackendCall.kind]

/-- The import comes first in a transfer, and there is no other. -/
theorem Transferred.eq_import_cons (h : Transferred request principal log answer) :
    ∃ reply rest, log = importFor request reply :: rest ∧
      ∀ x ∈ rest, x.call.kind ≠ .importPack := by
  cases h with
  | unimported => exact ⟨_, _, rfl, by simp⟩
  | unread => exact ⟨_, _, rfl, by simp [tipOf, BackendCall.kind]⟩
  | own howns => exact ⟨_, _, rfl, by simp [tipOf, BackendCall.kind]⟩
  | notified howns hnotice =>
    exact ⟨_, _, rfl, List.forall_mem_cons.mpr ⟨CallKind.noConfusion, hnotice.kind_ne_importPack⟩⟩

/-- A transfer imports once. -/
theorem Transferred.importsOnce (h : Transferred request principal log answer) :
    request.ImportsOnce log := by
  obtain ⟨reply, rest, rfl, hrest⟩ := h.eq_import_cons
  constructor
  · intro x hx hkind
    rcases List.mem_cons.mp hx with rfl | hx
    · exact ⟨reply, rfl⟩
    · exact absurd hkind (hrest x hx)
  · have hnone := countP_le_of_forall_ne hrest 0
    rw [List.countP_cons]
    split <;> omega

/-- Among calls of which only the first is an import, an import is the first, and what follows it
the second. -/
theorem eq_cons_of_infix {reply : Except RepositoryError Unit} {x : Exchange}
    {rest : List Exchange} (hrest : ∀ x ∈ rest, x.call.kind ≠ .importPack)
    (h : [importFor request (.ok ()), x] <:+: importFor request reply :: rest) :
    reply = .ok () ∧ ∃ later, rest = x :: later := by
  rcases List.infix_cons_iff.mp h with hfirst | hwithin
  · obtain ⟨hsame, later, hlater⟩ := List.cons_prefix_cons.mp hfirst
    exact ⟨by simpa [importFor] using hsame.symm, later, hlater.symm⟩
  · exact absurd rfl (hrest _ (hwithin.mem List.mem_cons_self))

/-- The push is accepted with the tip that is read after the import. -/
theorem answersImport_accept {tip : Tip} {rest : List Exchange}
    (hrest : ∀ x ∈ rest, x.call.kind ≠ .importPack) :
    request.AnswersImport (importFor request (.ok ()) :: tipOf request.target (.ok tip) :: rest)
      (request.accept tip).response := by
  constructor
  · intro tip' hread
    obtain ⟨-, later, hlater⟩ := eq_cons_of_infix
      (List.forall_mem_cons.mpr ⟨CallKind.noConfusion, hrest⟩) hread
    have hsame : tip' = tip := by simpa [tipOf] using (List.cons.inj hlater).1.symm
    rw [hsame]
  · intro hunread
    exact absurd ⟨[], rest, rfl⟩ (hunread tip)

/-- A transfer is answered by its import and the tip that is read after it. -/
theorem Transferred.answersImport (h : Transferred request principal log answer) :
    request.AnswersImport log answer.response := by
  cases h with
  | unimported =>
    refine ⟨?_, fun _ => ⟨.importFailed, rfl⟩⟩
    intro tip hread
    obtain ⟨hreply, -⟩ := eq_cons_of_infix (List.forall_mem_nil _) hread
    cases hreply
  | unread =>
    refine ⟨?_, fun _ => ⟨.importFailed, rfl⟩⟩
    intro tip hread
    obtain ⟨-, later, hlater⟩ := eq_cons_of_infix
      (List.forall_mem_singleton.mpr CallKind.noConfusion) hread
    simp [tipOf] at hlater
  | own howns => exact answersImport_accept (List.forall_mem_nil _)
  | notified howns hnotice => exact answersImport_accept hnotice.kind_ne_importPack

/-- The calls of a transfer up to the telling of a mailbox. -/
def callsUntilTold (request : PushRequest) (tip : Tip) (reply : Except RepositoryError Bool) :
    List Exchange :=
  [importFor request (.ok ()), tipOf request.target (.ok tip), mailboxOf request.target true,
    tellTip request.target tip reply]

/-- A transfer tells no mailbox of the push, or the push is by someone else and the tip that is read
after the import is told to the mailbox that was looked up, and made visible if it was new. -/
theorem Transferred.quiet_or_tells (h : Transferred request principal log answer) :
    (∀ x ∈ log, x.call.kind ≠ .updateChannelTip ∧ x.call.kind ≠ .commitMailbox) ∨
    principal.owns request.target.user = false ∧ ∃ tip,
      (∃ reply, log = request.callsUntilTold tip (.ok true) ++ [commit request.target reply]) ∨
        ∃ reply, reply ≠ .ok true ∧ log = request.callsUntilTold tip reply := by
  cases h with
  | unimported => exact Or.inl (by simp [importFor, BackendCall.kind])
  | unread => exact Or.inl (by simp [importFor, tipOf, BackendCall.kind])
  | own howns => exact Or.inl (by simp [importFor, tipOf, BackendCall.kind])
  | notified howns hnotice =>
    cases hnotice with
    | noMailbox => exact Or.inl (by simp [importFor, tipOf, mailboxOf, BackendCall.kind])
    | committed => exact Or.inr ⟨howns, _, Or.inl ⟨_, rfl⟩⟩
    | uncommitted hreply => exact Or.inr ⟨howns, _, Or.inr ⟨_, hreply, rfl⟩⟩

/-- Of the calls up to the telling of a mailbox, only the last tells a mailbox. -/
theorem eq_tellTip_of_mem {tip : Tip} {reply : Except RepositoryError Bool} {x : Exchange}
    (hx : x ∈ request.callsUntilTold tip reply) (hkind : x.call.kind = .updateChannelTip) :
    x = tellTip request.target tip reply := by
  simp only [callsUntilTold, List.mem_cons, List.not_mem_nil, or_false] at hx
  rcases hx with rfl | rfl | rfl | rfl
  · cases hkind
  · cases hkind
  · cases hkind
  · rfl

/-- The calls up to the telling of a mailbox make nothing visible. -/
theorem kind_ne_commitMailbox {tip : Tip} {reply : Except RepositoryError Bool} :
    ∀ x ∈ request.callsUntilTold tip reply, x.call.kind ≠ .commitMailbox := by
  simp [callsUntilTold, importFor, tipOf, mailboxOf, tellTip, BackendCall.kind]

/-- The calls up to the telling of a mailbox, and calls after them that tell no mailbox, tell one
after the import. -/
theorem tellsAfterImport_append {tip : Tip} {reply : Except RepositoryError Bool}
    {last : List Exchange} (howns : principal.owns request.target.user = false)
    (hlast : ∀ x ∈ last, x.call.kind ≠ .updateChannelTip) :
    request.TellsAfterImport principal (request.callsUntilTold tip reply ++ last) := by
  constructor
  · intro x hx hkind
    rcases List.mem_append.mp hx with hx | hx
    · have hsame := eq_tellTip_of_mem hx hkind
      refine ⟨howns, tip, reply, hsame, [], last, ?_⟩
      rw [hsame]
      rfl
    · exact absurd hkind (hlast x hx)
  · rw [List.countP_append]
    exact Nat.add_le_add (Nat.le_refl 1) (countP_le_of_forall_ne hlast 0)

/-- A transfer tells a mailbox only after the import. -/
theorem Transferred.tellsAfterImport (h : Transferred request principal log answer) :
    request.TellsAfterImport principal log := by
  rcases h.quiet_or_tells with
    hquiet | ⟨howns, tip, ⟨reply, rfl⟩ | ⟨reply, -, rfl⟩⟩
  · exact ⟨fun x hx hkind => absurd hkind (hquiet x hx).1,
      countP_le_of_forall_ne (fun x hx => (hquiet x hx).1) 1⟩
  · exact tellsAfterImport_append howns (List.forall_mem_singleton.mpr CallKind.noConfusion)
  · rw [← List.append_nil (request.callsUntilTold tip reply)]
    exact tellsAfterImport_append howns (List.forall_mem_nil _)

/-- A transfer makes visible what a mailbox found new, right after telling it, and nothing else. -/
theorem Transferred.commitsAfterTell (h : Transferred request principal log answer) :
    request.CommitsAfterTell log := by
  rcases h.quiet_or_tells with
    hquiet | ⟨-, tip, ⟨reply, rfl⟩ | ⟨reply, hreply, rfl⟩⟩
  · exact ⟨fun x hx hkind => absurd hkind (hquiet x hx).2,
      countP_le_of_forall_ne (fun x hx => (hquiet x hx).2) 1,
      fun tip htold => absurd rfl (hquiet _ htold).1⟩
  · have hend : [tellTip request.target tip (.ok true), commit request.target reply] <:+:
        request.callsUntilTold tip (.ok true) ++ [commit request.target reply] :=
      ⟨(request.callsUntilTold tip (.ok true)).take 3, [], rfl⟩
    refine ⟨?_, ?_, ?_⟩
    · intro x hx hkind
      rcases List.mem_append.mp hx with hx | hx
      · exact absurd hkind (kind_ne_commitMailbox x hx)
      · rw [List.mem_singleton.mp hx]
        exact ⟨tip, reply, rfl, hend⟩
    · rw [List.countP_append]
      exact Nat.add_le_add (countP_le_of_forall_ne kind_ne_commitMailbox 0) (Nat.le_refl 1)
    · intro tip' htold
      rcases List.mem_append.mp htold with htold | htold
      · rw [eq_tellTip_of_mem htold rfl]
        exact ⟨reply, hend⟩
      · cases congrArg (fun x => x.call.kind) (List.mem_singleton.mp htold)
  · refine ⟨?_, countP_le_of_forall_ne kind_ne_commitMailbox 1, ?_⟩
    · intro x hx hkind
      exact absurd hkind (kind_ne_commitMailbox x hx)
    · intro tip' htold
      have hsame := eq_tellTip_of_mem htold rfl
      simp only [tellTip, Exchange.mk.injEq, heq_eq_eq] at hsame
      exact absurd hsame.2.symm hreply

/-- A transfer is disciplined. -/
theorem Transferred.disciplined (h : Transferred request principal log answer) :
    request.Disciplined principal log answer.response :=
  ⟨h.importsOnce, h.tellsAfterImport, h.commitsAfterTell, h.answersImport⟩

/-! ### The whole push -/

/-- What is asked before the transfer only reads. -/
theorem reads_of_checks {checks : List Exchange}
    (h : ∀ x ∈ checks, ∃ reply, x = tipOf request.target reply) :
    ∀ x ∈ repositoryOf request.target true :: checks, x.call.kind.reads = true := by
  refine List.forall_mem_cons.mpr ⟨rfl, ?_⟩
  intro x hx
  obtain ⟨reply, rfl⟩ := h x hx
  rfl

/-- Whoever answers its calls, a push is disciplined. -/
theorem Finalized.disciplined (h : Finalized request principal log answer) :
    request.Disciplined principal log answer.response := by
  cases h with
  | denied haccess => exact disciplined_nil .accessDenied
  | unknown haccess =>
    exact (disciplined_nil .noSuchBranch).after_reads (List.forall_mem_singleton.mpr rfl)
  | stopped haccess hchecks =>
    have hdisciplined : request.Disciplined principal (_ ++ []) (refuse .importFailed).response :=
      (disciplined_nil .importFailed).after_reads (reads_of_checks hchecks)
    rw [List.append_nil] at hdisciplined
    exact hdisciplined
  | transferred haccess hchecks htransfer =>
    exact htransfer.disciplined.after_reads (reads_of_checks hchecks)

/-- The calls of a transfer concern the branch of the push. -/
theorem Transferred.concerns (h : Transferred request principal log answer) :
    ∀ x ∈ log, x.call.Concerns request.target := by
  cases h with
  | unimported => simp [importFor, BackendCall.Concerns, BackendCall.user, BackendCall.branch?]
  | unread => simp [importFor, tipOf, BackendCall.Concerns, BackendCall.user, BackendCall.branch?]
  | own howns =>
    simp [importFor, tipOf, BackendCall.Concerns, BackendCall.user, BackendCall.branch?]
  | notified howns hnotice =>
    cases hnotice <;> simp [importFor, tipOf, mailboxOf, tellTip, commit, BackendCall.Concerns,
      BackendCall.user, BackendCall.branch?]

/-- What is asked before the transfer concerns the branch of the push. -/
theorem concerns_of_checks {checks : List Exchange} (found : Bool)
    (h : ∀ x ∈ checks, ∃ reply, x = tipOf request.target reply) :
    ∀ x ∈ repositoryOf request.target found :: checks, x.call.Concerns request.target := by
  refine List.forall_mem_cons.mpr ⟨⟨rfl, Or.inl rfl⟩, ?_⟩
  intro x hx
  obtain ⟨reply, rfl⟩ := h x hx
  exact ⟨rfl, Or.inr rfl⟩

/-- The calls of a push concern its branch, and the principal may touch it. -/
theorem Finalized.permitted (h : Finalized request principal log answer) :
    ∀ x ∈ log, principal.canAccess request.target = true ∧ x.call.Concerns request.target := by
  cases h with
  | denied haccess => exact List.forall_mem_nil _
  | unknown haccess =>
    exact fun x hx => ⟨haccess, concerns_of_checks false (List.forall_mem_nil _) x hx⟩
  | stopped haccess hchecks =>
    exact fun x hx => ⟨haccess, concerns_of_checks true hchecks x hx⟩
  | transferred haccess hchecks htransfer =>
    intro x hx
    refine ⟨haccess, ?_⟩
    rw [← List.cons_append] at hx
    rcases List.mem_append.mp hx with hx | hx
    · exact concerns_of_checks true hchecks x hx
    · exact htransfer.concerns x hx

end BranchSync.PushRequest
