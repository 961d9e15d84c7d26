import BranchSync.Proofs.Document.Answering
import BranchSync.Proofs.Document.Headers
import BranchSync.Proofs.Identifier.Spelling
import BranchSync.Proofs.Payload.Transfer
import BranchSync.Proofs.Push.Finalizing
import BranchSync.Proofs.Repository.FirstOccurrence
import BranchSync.Proofs.Repository.PackForm

/-!
# Which pushes are applied

Whether a push is applied shows in the texts that were sent and in the history of its branch:
`Node.Carries` says which octets its children carry, and `Repository.Continues` when commits take a
history from one reference to the other. The size limit, the reader of the payload, the reader of
packs, the readers of the references and the storage each refuse for a reason of their own, and
together they refuse exactly the pushes that carry nothing of this kind. Access and the existence of
the account are asked before all of them.
-/

namespace BranchSync

/-- The children of a push carry the octets: they are read from the direct text of the first pack
element, which is within the limit, and there are none without such an element. -/
def Node.Carries (limit : Option UInt64) (children : List Node) (pack : List UInt8) : Prop :=
  match packContent? children with
  | none => pack = []
  | some content =>
    (∀ max, limit = some max → (String.join (texts content)).utf8ByteSize ≤ max.toNat) ∧
      Payload.decode (String.join (texts content)) = .ok pack

/-- Commits continue a history from one reference to another: both references are well-formed, the
first is where the history ends and is found nowhere else in it, and the second is the last of the
commits, or the first reference if there are none. -/
structure Repository.Continues (history : List CommitId) (start last : String)
    (commits : List CommitId) : Prop where
  start_form : start = "" ∨ CommitDigits start
  last_form : last = "" ∨ CommitDigits last
  start_at_end : (start = "" ∧ history = []) ∨
    ∃ id : CommitId, id.toHex = start.toLower ∧ UpTo (.commit id) history
  ends_at_last : (commits = [] ∧ last.toLower = start.toLower) ∨
    ∃ id : CommitId, commits.getLast? = some id ∧ id.toHex = last.toLower

/-- A push with these children applies to a history: the octets that they carry are a whole number of
commit ids, and these continue the history. -/
structure Applies (limit : Option UInt64) (children : List Node) (history : List CommitId)
    (start last : String) (commits : List CommitId) : Prop
    extends Repository.Continues history start last commits where
  carries : ∃ pack, Node.Carries limit children pack ∧ commitIdLength ∣ pack.length ∧
    Pack.encode commits = pack

/-- The response shows the tip that a push led to. -/
def Response.ShowsTip (response : Response) (tip : String) : Prop :=
  ∃ stanza, response = .result [stanza] ∧ stanza.name = Vocabulary.syncPush ∧
    stanza.attribute? Vocabulary.tip = some tip

/-- The answer to a push and the accounts after it, as they follow from what was sent and from the
accounts before. -/
structure PushAnswer.Decides (answer : PushAnswer) (context : SyncContext) (target : BranchRef)
    (start last : String) (children : List Node) (a after : Accounts) : Prop where
  denied_iff : answer.outcome = .failed .accessDenied ↔
    context.principal.canAccess target = false
  unknown_iff : answer.outcome = .failed .noSuchBranch ↔
    context.principal.canAccess target = true ∧ a.repositories.get? target.user = none
  refused_iff : answer.outcome = .failed .importFailed ↔
    context.principal.canAccess target = true ∧ (a.repositories.get? target.user).isSome = true ∧
      ¬ ∃ commits, Applies context.policy.maxPayloadSize children (a.history target) start last
        commits
  applied_iff : (∃ tip, answer.outcome = .applied tip) ↔
    context.principal.canAccess target = true ∧ (a.repositories.get? target.user).isSome = true ∧
      ∃ commits, Applies context.policy.maxPayloadSize children (a.history target) start last
        commits
  applied : ∀ tip, answer.outcome = .applied tip →
    tip.toHex = last.toLower ∧ answer.response.ShowsTip last.toLower ∧
      ∃ commits, Applies context.policy.maxPayloadSize children (a.history target) start last
          commits ∧
        ∀ t, after.history t = if t = target then a.history target ++ commits else a.history t
  failed : ∀ failure, answer.outcome = .failed failure →
    answer.response = .error failure.message ∧ after = a

/-- The text of a pack is usable exactly if it is within the limit and can be read. -/
theorem Collector.outcome_eq_ok_iff {limit : Option UInt64} {size : Nat} {text : String}
    {pack : List UInt8} :
    outcome limit size text = .ok pack ↔
      (∀ max, limit = some max → size ≤ max.toNat) ∧ Payload.decode text = .ok pack := by
  cases limit with
  | none => simp [outcome]
  | some max =>
    by_cases hlarge : size > max.toNat
    · simp [outcome, hlarge, Nat.not_le.mpr hlarge]
    · simp [outcome, hlarge, Nat.le_of_not_gt hlarge]

/-- The octets that a push carries are its payload; without a payload, there are none. -/
theorem Node.carries_iff {limit : Option UInt64} {children : List Node} {pack : List UInt8} :
    Carries limit children pack ↔ (payload? limit children).getD (.ok []) = .ok pack := by
  unfold Carries payload?
  cases packContent? children with
  | none => simp [eq_comm]
  | some content => rw [Option.map_some, Option.getD_some, Collector.outcome_eq_ok_iff]

namespace Repository

variable {history commits : List CommitId} {start last : String}

/-- Commits continue a history exactly if the first reference names a tip that the history leads up
to, and the second one names the tip after the commits. -/
theorem continues_iff :
    Continues history start last commits ↔
      ∃ tip, TipRef.ofText start = .tip tip ∧ UpTo tip history ∧
        TipRef.ofText last = .tip (.ofHistory (history ++ commits)) := by
  constructor
  · intro h
    obtain ⟨tip, hstart, hupTo⟩ : ∃ tip, TipRef.ofText start = .tip tip ∧ UpTo tip history := by
      rcases h.start_at_end with ⟨rfl, rfl⟩ | ⟨id, hspelled, hupTo⟩
      · exact ⟨.empty, rfl, .empty⟩
      · exact ⟨.commit id, TipRef.ofText_eq_tip_iff.mpr ⟨h.start_form, hspelled⟩, hupTo⟩
    have htip := eq_ofHistory_of_position? (position?_eq_length_iff.mpr hupTo)
    refine ⟨tip, hstart, hupTo, TipRef.ofText_eq_tip_iff.mpr ⟨h.last_form, ?_⟩⟩
    rw [← tipAfter_ofHistory, ← htip]
    rcases h.ends_at_last with ⟨rfl, hsame⟩ | ⟨id, hid, hspelled⟩
    · exact (TipRef.ofText_eq_tip_iff.mp hstart).2.trans hsame.symm
    · rw [tipAfter, hid]
      exact hspelled
  · intro h
    obtain ⟨tip, hstart, hupTo, hlast⟩ := h
    have htip := eq_ofHistory_of_position? (position?_eq_length_iff.mpr hupTo)
    rw [← tipAfter_ofHistory, ← htip] at hlast
    obtain ⟨hstartForm, hstartSpelled⟩ := TipRef.ofText_eq_tip_iff.mp hstart
    obtain ⟨hlastForm, hlastSpelled⟩ := TipRef.ofText_eq_tip_iff.mp hlast
    refine ⟨hstartForm, hlastForm, ?_, ?_⟩
    · cases tip with
      | empty => exact Or.inl ⟨TipRef.ofText_eq_empty_iff.mp hstart, upTo_empty_iff.mp hupTo⟩
      | commit id => exact Or.inr ⟨id, hstartSpelled, hupTo⟩
    · unfold tipAfter at hlastSpelled
      cases hid : commits.getLast? with
      | none =>
        rw [hid] at hlastSpelled
        exact Or.inl ⟨List.getLast?_eq_none_iff.mp hid, hlastSpelled.symm.trans hstartSpelled⟩
      | some id =>
        rw [hid] at hlastSpelled
        exact Or.inr ⟨id, rfl, hlastSpelled⟩

/-- A pack is imported exactly if its commits continue the history of the branch, and they are
appended. -/
theorem importPack_ofText_eq_ok_iff {r r' : Repository} {branch : String} {pack : List UInt8} :
    r.importPack branch pack (.ofText start) (.ofText last) = .ok r' ↔
      ∃ commits, Pack.encode commits = pack ∧
        Continues (r.history branch) start last commits ∧
        r' = r.setHistory branch (r.history branch ++ commits) := by
  simp only [importPack_eq_ok_iff, Pack.decode_eq_ok_iff, position?_eq_length_iff, continues_iff]
  constructor
  · intro h
    obtain ⟨commits, tip, hpack, hstart, hupTo, hlast, hresult⟩ := h
    exact ⟨commits, hpack, ⟨tip, hstart, hupTo, hlast⟩, hresult⟩
  · intro h
    obtain ⟨commits, hpack, ⟨tip, hstart, hupTo, hlast⟩, hresult⟩ := h
    exact ⟨commits, tip, hpack, hstart, hupTo, hlast, hresult⟩

end Repository

namespace PushAnswer

variable {context : SyncContext} {target : BranchRef} {start last : String} {children : List Node}
  {a : Accounts}

/-- A push without access is denied. -/
theorem decides_denied (haccess : context.principal.canAccess target = false) :
    (PushRequest.refuse .accessDenied).Decides context target start last children a a := by
  constructor <;> simp [PushRequest.refuse, haccess]

/-- A push to an account that is not there is refused. -/
theorem decides_unknown (haccess : context.principal.canAccess target = true)
    (hunknown : a.repositories.get? target.user = none) :
    (PushRequest.refuse .noSuchBranch).Decides context target start last children a a := by
  constructor <;> simp [PushRequest.refuse, haccess, hunknown]

/-- A push that does not apply is refused. -/
theorem decides_refused {r : Repository} (haccess : context.principal.canAccess target = true)
    (hr : a.repositories.get? target.user = some r)
    (hnone : ¬ ∃ commits, Applies context.policy.maxPayloadSize children (a.history target) start
      last commits) :
    (PushRequest.refuse .importFailed).Decides context target start last children a a := by
  constructor <;> simp [PushRequest.refuse, haccess, hr, hnone]

/-- A push that applies is accepted with the tip that it names, and its commits are appended. -/
theorem decides_accepted {r : Repository} {commits : List CommitId}
    (haccess : context.principal.canAccess target = true)
    (hr : a.repositories.get? target.user = some r)
    (happlies : Applies context.policy.maxPayloadSize children (a.history target) start last
      commits) (pack : Option (List UInt8)) :
    let request : PushRequest := ⟨target, .ofText start, .ofText last, pack⟩
    let r' := r.setHistory target.branch (r.history target.branch ++ commits)
    (request.accept (r'.tip target.branch)).Decides context target start last children a
      (a.afterPush context.principal target r') := by
  intro request r'
  have hsome : ∃ commits, Applies context.policy.maxPayloadSize children (a.history target) start
      last commits := ⟨commits, happlies⟩
  have hhistory := Accounts.history_eq hr
  have hspelled : (r'.tip target.branch).toHex = last.toLower := by
    obtain ⟨tip, -, -, hlast⟩ := Repository.continues_iff.mp happlies.toContinues
    rw [Repository.tip_setHistory, ← hhistory]
    exact (TipRef.ofText_eq_tip_iff.mp hlast).2
  refine ⟨?_, ?_, ?_, ?_, ?_, ?_⟩
  · simp [PushRequest.accept, haccess]
  · simp [PushRequest.accept, hr]
  · simp [PushRequest.accept, hsome]
  · simp [PushRequest.accept, haccess, hr, hsome]
  · intro tip h
    cases h
    refine ⟨hspelled, ⟨_, rfl, rfl, ?_⟩, commits, happlies, ?_⟩
    · rw [← hspelled]
      rfl
    · intro t
      rw [Accounts.history_afterPush hr, hhistory]
  · intro failure h
    cases h

end PushAnswer

/-- A push applies to a history exactly if its payload is the pack of commits that continue the
history; without a payload, that pack is empty. -/
theorem applies_iff {limit : Option UInt64} {children : List Node} {history commits : List CommitId}
    {start last : String} :
    Applies limit children history start last commits ↔
      (Node.payload? limit children).getD (.ok []) = .ok (Pack.encode commits) ∧
        Repository.Continues history start last commits := by
  constructor
  · intro h
    obtain ⟨pack, hcarries, -, rfl⟩ := h.carries
    exact ⟨Node.carries_iff.mp hcarries, h.toContinues⟩
  · intro h
    obtain ⟨hpayload, hcontinues⟩ := h
    exact ⟨hcontinues, Pack.encode commits, Node.carries_iff.mpr hpayload,
      Pack.exists_encode_eq_iff.mp ⟨commits, rfl⟩, rfl⟩

/-- Over accounts in memory, a push is decided by access, by the existence of the account, by its
payload and by the import, in this order; without a payload, the empty pack is imported. -/
theorem Document.run_finalizeWith {request : PushRequest} (hpack : request.pack = none)
    (context : SyncContext) (payload : Option (Except ProtocolError (List UInt8))) (a : Accounts) :
    (finalizeWith context request payload).run Accounts.answer a =
      if context.principal.canAccess request.target then
        match a.repositories.get? request.target.user with
        | none => (PushRequest.refuse .noSuchBranch, a)
        | some r =>
          match payload.getD (.ok []) with
          | .error _ => (PushRequest.refuse .importFailed, a)
          | .ok pack =>
            match r.importPack request.target.branch pack request.start request.last with
            | .error _ => (PushRequest.refuse .importFailed, a)
            | .ok r' => (request.accept (r'.tip request.target.branch),
                a.afterPush context.principal request.target r')
      else (PushRequest.refuse .accessDenied, a) := by
  rcases payload with _ | fault | pack
  · rw [finalizeWith, PushRequest.run_finalize, hpack]
    rfl
  · rw [finalizeWith, PushRequest.run_finalize]
    rfl
  · rw [finalizeWith, PushRequest.run_finalize]
    rfl

/-- Over accounts in memory, the answer to a push follows from what was sent and from the
accounts. -/
theorem Document.decides_finalizeWith (context : SyncContext) (target : BranchRef)
    (start last : String) (children : List Node) (a : Accounts) :
    let finished := (finalizeWith context ⟨target, .ofText start, .ofText last, none⟩
      (Node.payload? context.policy.maxPayloadSize children)).run Accounts.answer a
    finished.1.Decides context target start last children a finished.2 := by
  intro finished
  have hrun : finished = _ := run_finalizeWith rfl context _ a
  cases haccess : context.principal.canAccess target with
  | false =>
    simp only [haccess, Bool.false_eq_true, if_false] at hrun
    rw [hrun]
    exact PushAnswer.decides_denied haccess
  | true =>
    cases hr : a.repositories.get? target.user with
    | none =>
      simp only [haccess, if_true, hr] at hrun
      rw [hrun]
      exact PushAnswer.decides_unknown haccess hr
    | some r =>
      simp only [haccess, if_true, hr] at hrun
      have hhistory := Accounts.history_eq hr
      cases hpayload : (Node.payload? context.policy.maxPayloadSize children).getD (.ok []) with
      | error fault =>
        rw [hpayload] at hrun
        rw [hrun]
        refine PushAnswer.decides_refused haccess hr ?_
        intro happlies
        obtain ⟨commits, happlies⟩ := happlies
        rw [applies_iff, hpayload] at happlies
        cases happlies.1
      | ok pack =>
        simp only [hpayload] at hrun
        cases himport : r.importPack target.branch pack (.ofText start) (.ofText last) with
        | error e =>
          rw [himport] at hrun
          rw [hrun]
          refine PushAnswer.decides_refused haccess hr ?_
          intro happlies
          obtain ⟨commits, happlies⟩ := happlies
          rw [applies_iff, hpayload, hhistory] at happlies
          have hok := Repository.importPack_ofText_eq_ok_iff.mpr
            ⟨commits, (Except.ok.inj happlies.1).symm, happlies.2, rfl⟩
          rw [himport] at hok
          cases hok
        | ok r' =>
          obtain ⟨commits, rfl, hcontinues, rfl⟩ :=
            Repository.importPack_ofText_eq_ok_iff.mp himport
          rw [← hhistory] at hcontinues
          rw [himport] at hrun
          rw [hrun]
          exact PushAnswer.decides_accepted haccess hr (applies_iff.mpr ⟨hpayload, hcontinues⟩) none

/-- Over accounts in memory, a push with its four attributes is answered once, by its end tag, and
the answer is decided by access, by the existence of the account, and by whether what was sent
applies to the history of the branch. -/
theorem push_applied_iff {head : Element} {target : BranchRef} {start last : String}
    (h : head.Pushes target start last) (children : List Node) (context : SyncContext)
    (responses : List Response) (a : Accounts) :
    ∃ push answer after,
      ((Session.idle context responses).handleEvents
          (.openTag head :: Node.eventsOf children)).run Accounts.answer a =
        ((.ok (), ⟨context, 1, some push, responses⟩), a) ∧
      (push.finish context).1.run Accounts.answer a = (.ok answer, after) ∧
      ((Session.idle context responses).handleEvents (Node.element head children).events).run
          Accounts.answer a =
        ((.ok (), Session.idle context (responses ++ [answer.response])), after) ∧
      answer.Decides context target start last children a after := by
  let request : PushRequest := ⟨target, .ofText start, .ofText last, none⟩
  let payload := Node.payload? context.policy.maxPayloadSize children
  let finished := (Document.finalizeWith context request payload).run Accounts.answer a
  have hheader : PushRequest.ofElement head = .ok request := h.ofElement_eq
  refine ⟨.ofPayload request context.policy.maxPayloadSize payload, finished.1, finished.2,
    ?_, ?_, ?_, Document.decides_finalizeWith context target start last children a⟩
  · rw [Session.handleEvents_cons_of_pure
      (Session.handleEvent_openTag_push context responses h.name_eq hheader),
      Session.handleEvents_children, BackendProgram.run_pure]
  · rw [PushExchange.finish_ofPayload, BackendProgram.run_bind, BackendProgram.run_pure]
  · rw [Session.handleEvents_push context responses h.name_eq hheader, BackendProgram.run_bind,
      BackendProgram.run_pure]
    simp [Session.settled, Document.firstRefusal, Document.responses, finished, request, payload]

/-- The header of a first push, with the digits of its commit in uppercase. -/
def uppercaseHeader : Element :=
  .ofAttributes Vocabulary.syncPush [(Vocabulary.branch, "main"), (Vocabulary.startCommit, ""),
    (Vocabulary.lastCommit, "ABABABABABABABABABABABABABABABABABABABAB"),
    (Vocabulary.serverUser, "alice")]

/-- The content of a push of one commit. -/
def contentOf (id : CommitId) : List Node :=
  [.element (.ofAttributes Vocabulary.pack []) [.text (Payload.encode (Pack.encode [id]))]]

/-- The content of a push of one commit carries the pack of that commit. -/
theorem carries_contentOf (id : CommitId) :
    Node.Carries none (contentOf id) (Pack.encode [id]) := by
  have hjoin (text : String) : String.join (Node.texts [.text text]) = text := by
    simp [Node.texts, String.join]
  refine ⟨(fun max h => by cases h), ?_⟩
  rw [hjoin]
  exact Payload.decode_encode (Pack.encode [id])

/-- A first push to a new account applies to the empty history, and it is answered with the digits of
its commit in lowercase. -/
theorem push_applied_iff_uppercase :
    let id := CommitId.uniform 0xab
    let context : SyncContext := ⟨.account "alice", .default⟩
    let a := Accounts.empty.addAccount "alice"
    uppercaseHeader.Pushes ⟨"alice", "main"⟩ "" "ABABABABABABABABABABABABABABABABABABABAB" ∧
      Applies none (contentOf id) [] "" "ABABABABABABABABABABABABABABABABABABABAB" [id] ∧
      ∃ (push : PushExchange) (answer : PushAnswer) (after : Accounts),
        (push.finish context).1.run Accounts.answer a = (.ok answer, after) ∧
        ∃ tip, answer.outcome = .applied tip ∧
          tip.toHex = "abababababababababababababababababababab" ∧
          answer.response.ShowsTip "abababababababababababababababababababab" := by
  intro id context a
  have hpushes : uppercaseHeader.Pushes ⟨"alice", "main"⟩ ""
      "ABABABABABABABABABABABABABABABABABABABAB" := ⟨rfl, rfl, rfl, rfl, rfl⟩
  have happlies : Applies none (contentOf id) [] "" "ABABABABABABABABABABABABABABABABABABABAB"
      [id] :=
    { start_form := Or.inl rfl
      last_form := Or.inr (by decide +kernel)
      start_at_end := Or.inl ⟨rfl, rfl⟩
      ends_at_last := Or.inr ⟨id, rfl, by decide +kernel⟩
      carries := ⟨Pack.encode [id], carries_contentOf id, by decide, rfl⟩ }
  obtain ⟨push, answer, after, -, hfinish, -, hdecides⟩ :=
    push_applied_iff hpushes (contentOf id) context [] a
  obtain ⟨tip, htip⟩ := hdecides.applied_iff.mpr ⟨rfl, rfl, [id], happlies⟩
  have hlower : "ABABABABABABABABABABABABABABABABABABABAB".toLower =
      "abababababababababababababababababababab" := by decide +kernel
  obtain ⟨hspelled, hshown, -⟩ := hdecides.applied tip htip
  rw [hlower] at hspelled hshown
  exact ⟨hpushes, happlies, push, answer, after, hfinish, tip, htip, hspelled, hshown⟩

end BranchSync
