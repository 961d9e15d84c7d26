import BranchSync.Proofs.Identifier.References
import BranchSync.Proofs.Session.Closing

/-!
# What a principal cannot touch does not show

Two stores of accounts agree for a principal when they know the same accounts and hold the same
histories wherever the principal has access. A session of the principal cannot tell them apart:
fed the same events, well formed or not, it gives the same results and the same responses over
both, it leaves them in agreement, and it changes no history outside the principal's reach. What
the stores hold beyond that reach, and what their mailboxes hold, never shows.
-/

namespace BranchSync

namespace Accounts

/-- Two stores know the same accounts and hold the same histories where a principal has access. -/
structure Agree (principal : Principal) (a b : Accounts) : Prop where
  repository_eq : ∀ target, principal.canAccess target = true →
    (a.repositories.get? target.user).isSome = (b.repositories.get? target.user).isSome
  history_eq : ∀ target, principal.canAccess target = true → a.history target = b.history target

/-- Stores that agree still agree after the same history was stored for the same branch. -/
theorem Agree.afterPush {principal : Principal} {a b : Accounts} (h : Agree principal a b)
    {target : BranchRef} {r r' : Repository} (hr : a.repositories.get? target.user = some r)
    (hr' : b.repositories.get? target.user = some r') (history : List CommitId) :
    Agree principal (a.afterPush principal target (r.setHistory target.branch history))
      (b.afterPush principal target (r'.setHistory target.branch history)) where
  repository_eq := by
    intro t haccess
    rw [repositories_isSome_afterPush hr, repositories_isSome_afterPush hr']
    exact h.repository_eq t haccess
  history_eq := by
    intro t haccess
    rw [history_afterPush hr, history_afterPush hr', h.history_eq t haccess]

end Accounts

open Accounts (Agree)

variable {context : SyncContext} {a b : Accounts}

/-- A pull gets the same answer from stores that agree. -/
theorem run_handlePull_of_agree (h : Agree context.principal a b) (element : Element) :
    ((handlePull context element).run Accounts.answer a).1 =
      ((handlePull context element).run Accounts.answer b).1 := by
  rw [run_handlePull, run_handlePull]
  cases PullRequest.ofElement element with
  | error e => rfl
  | ok request =>
    dsimp only
    by_cases haccess : context.principal.canAccess request.target = true
    · rw [if_pos haccess, if_pos haccess, h.repository_eq _ haccess, h.history_eq _ haccess]
    · rw [if_neg haccess, if_neg haccess]

namespace PushRequest

/-- A push gets the same answer from stores that agree, and they still agree afterwards. -/
theorem run_finalize_of_agree (h : Agree context.principal a b) (request : PushRequest)
    (fault : Option ProtocolError) :
    ((request.finalize context fault).run Accounts.answer a).1 =
        ((request.finalize context fault).run Accounts.answer b).1 ∧
      Agree context.principal ((request.finalize context fault).run Accounts.answer a).2
        ((request.finalize context fault).run Accounts.answer b).2 := by
  rw [run_finalize, run_finalize]
  by_cases haccess : context.principal.canAccess request.target = true
  · rw [if_pos haccess, if_pos haccess]
    have hknown := h.repository_eq _ haccess
    have hhistory := h.history_eq _ haccess
    cases hr : a.repositories.get? request.target.user with
    | none =>
      cases hr' : b.repositories.get? request.target.user with
      | none => exact ⟨rfl, h⟩
      | some r' => simp [hr, hr'] at hknown
    | some r =>
      cases hr' : b.repositories.get? request.target.user with
      | none => simp [hr, hr'] at hknown
      | some r' =>
        rw [Accounts.history_eq hr, Accounts.history_eq hr'] at hhistory
        dsimp only
        rw [Repository.importPack_eq, Repository.importPack_eq, hhistory]
        cases fault with
        | some fault => exact ⟨rfl, h⟩
        | none =>
          cases Repository.importHistory (r'.history request.target.branch) request.target.branch
              (request.pack.getD []) request.start request.last with
          | error e => exact ⟨rfl, h⟩
          | ok history =>
            have hsame : request.accept ((r.setHistory request.target.branch history).tip
                  request.target.branch) =
                request.accept ((r'.setHistory request.target.branch history).tip
                  request.target.branch) := by
              rw [Repository.tip_setHistory, Repository.tip_setHistory]
            exact ⟨hsame, h.afterPush hr hr' history⟩
  · rw [if_neg haccess, if_neg haccess]
    exact ⟨rfl, h⟩

/-- A push changes no history that its principal cannot touch. -/
theorem history_finalize_of_denied {target : BranchRef}
    (hdenied : context.principal.canAccess target = false) (request : PushRequest)
    (fault : Option ProtocolError) (a : Accounts) :
    ((request.finalize context fault).run Accounts.answer a).2.history target =
      a.history target := by
  rcases finalize_cases request context fault a with
    ⟨failure, hrun⟩ | ⟨r, r', haccess, hr, himport, hrun⟩
  · rw [hrun]
  · obtain ⟨commits, -, -, -, -, -, hr'⟩ := Repository.importPack_eq_ok_iff.mp himport
    have hne : target ≠ request.target := by
      intro hsame
      rw [hsame, haccess] at hdenied
      cases hdenied
    rw [hrun, hr', Accounts.history_afterPush hr, if_neg hne]

end PushRequest

namespace Session

/-- Handle events one after the other and note, for each, its result and the responses that are
queued after it. -/
def observe (s : Session) :
    List ParseEvent → BackendProgram (List (Except SyncError Unit × List Response) × Session)
  | [] => pure ([], s)
  | event :: rest => do
    let (result, next) ← s.handleEvent event
    let (notes, last) ← next.observe rest
    pure ((result, next.responses) :: notes, last)

/-- An event has the same result over stores that agree for the principal of the session, and they
still agree afterwards. -/
theorem run_handleEvent_of_agree {s : Session} (h : Agree s.context.principal a b)
    (event : ParseEvent) :
    ((s.handleEvent event).run Accounts.answer a).1 =
        ((s.handleEvent event).run Accounts.answer b).1 ∧
      Agree s.context.principal ((s.handleEvent event).run Accounts.answer a).2
        ((s.handleEvent event).run Accounts.answer b).2 := by
  rcases s.handleEvent_cases event with
    ⟨result, hpure, -⟩ | ⟨element, hpull⟩ | ⟨request, fault, hclosing⟩
  · rw [hpure]
    exact ⟨rfl, h⟩
  · have hanswer := run_handlePull_of_agree h element
    rw [hpull, BackendProgram.run_bind, BackendProgram.run_bind, BackendProgram.run_pure,
      BackendProgram.run_pure, hanswer]
    refine ⟨rfl, ?_⟩
    rw [run_handlePull, run_handlePull]
    exact h
  · obtain ⟨hanswer, hagree⟩ := PushRequest.run_finalize_of_agree h request fault
    rw [handleEvent_of_closing hclosing, BackendProgram.run_bind, BackendProgram.run_bind,
      BackendProgram.run_pure, BackendProgram.run_pure, hanswer]
    exact ⟨rfl, hagree⟩

/-- An event changes no history that the principal of the session cannot touch. -/
theorem history_handleEvent_of_denied {s : Session} {target : BranchRef}
    (hdenied : s.context.principal.canAccess target = false) (event : ParseEvent) (a : Accounts) :
    ((s.handleEvent event).run Accounts.answer a).2.history target = a.history target := by
  cases hclosing : s.closing? event with
  | none => rw [run_handleEvent_storage hclosing]
  | some closing =>
    obtain ⟨request, fault⟩ := closing
    rw [handleEvent_of_closing hclosing, BackendProgram.run_bind]
    exact PushRequest.history_finalize_of_denied hdenied request fault a

/-- What a session shows over a list of events is the same over stores that agree for its
principal, and they still agree afterwards. -/
theorem run_observe_of_agree {s : Session} (h : Agree s.context.principal a b)
    (events : List ParseEvent) :
    ((s.observe events).run Accounts.answer a).1 = ((s.observe events).run Accounts.answer b).1 ∧
      Agree s.context.principal ((s.observe events).run Accounts.answer a).2
        ((s.observe events).run Accounts.answer b).2 := by
  induction events generalizing s a b with
  | nil => exact ⟨rfl, h⟩
  | cons event rest ih =>
    obtain ⟨hresult, hagree⟩ := run_handleEvent_of_agree h event
    have hcontext := s.context_handleEvent event Accounts.answer b
    simp only [observe, BackendProgram.run_bind, BackendProgram.run_pure, hresult]
    rw [← hcontext] at hagree ⊢
    obtain ⟨hrest, hagree'⟩ := ih hagree
    rw [hrest]
    exact ⟨rfl, hagree'⟩

/-- A session changes no history that its principal cannot touch. -/
theorem history_observe_of_denied {s : Session} {target : BranchRef}
    (hdenied : s.context.principal.canAccess target = false) (events : List ParseEvent)
    (a : Accounts) :
    ((s.observe events).run Accounts.answer a).2.history target = a.history target := by
  induction events generalizing s a with
  | nil => rfl
  | cons event rest ih =>
    have hfirst := history_handleEvent_of_denied hdenied event a
    rw [← s.context_handleEvent event Accounts.answer a] at hdenied
    simp only [observe, BackendProgram.run_bind, BackendProgram.run_pure]
    rw [ih hdenied, hfirst]

/-- Fed any events, a fresh session of a principal gives the same results and queues the same
responses over stores that agree for the principal, it leaves them in agreement, and over neither
does it change a history that the principal cannot touch. -/
theorem observe_noninterference {principal : Principal} (h : Agree principal a b)
    (policy : SyncPolicy) (events : List ParseEvent) :
    let session := new ⟨principal, policy⟩
    let overA := (session.observe events).run Accounts.answer a
    let overB := (session.observe events).run Accounts.answer b
    overA.1 = overB.1 ∧ Agree principal overA.2 overB.2 ∧
      ∀ target, principal.canAccess target = false →
        overA.2.history target = a.history target ∧ overB.2.history target = b.history target := by
  intro session overA overB
  obtain ⟨hshown, hagree⟩ := run_observe_of_agree (s := session) h events
  refine ⟨hshown, hagree, ?_⟩
  intro target hdenied
  exact ⟨history_observe_of_denied (s := session) hdenied events a,
    history_observe_of_denied (s := session) hdenied events b⟩

/-- An owner has access to nothing but the own account. -/
theorem eq_user_of_canAccess_account {user : String} {target : BranchRef}
    (h : (Principal.account user).canAccess target = true) : user = target.user := by
  simpa [Principal.canAccess, Principal.owns, Principal.holds] using h

/-- One account, as its owner sees it. -/
def aliceAlone : Accounts := Accounts.empty.addAccount "alice"

/-- The same account in the company of another one that has a history. -/
def aliceBesideBob : Accounts :=
  ((Accounts.empty.addAccount "bob").setHistory ⟨"bob", "main"⟩
    [.uniform 7]).addRepository "alice"

/-- The owner of one account does not see the other one. -/
theorem agree_alice : Agree (.account "alice") aliceAlone aliceBesideBob where
  repository_eq := by
    intro target haccess
    rw [← eq_user_of_canAccess_account haccess]
    rfl
  history_eq := by
    intro target haccess
    unfold Accounts.history
    rw [← eq_user_of_canAccess_account haccess]
    rfl

/-- A pull of the hidden branch and the creation of an own branch. -/
def aliceEvents : List ParseEvent :=
  [.openTag (.ofAttributes Vocabulary.syncPull [(Vocabulary.branch, "main"),
      (Vocabulary.serverUser, "bob"), (Vocabulary.base, "")]),
    .closeTag Vocabulary.syncPull,
    .openTag (.ofAttributes Vocabulary.syncPush [(Vocabulary.branch, "main"),
      (Vocabulary.startCommit, ""), (Vocabulary.lastCommit, ""), (Vocabulary.serverUser, "alice")]),
    .closeTag Vocabulary.syncPush]

/-- Trying to read the history of the other account does not tell the owner whether it exists. -/
theorem alice_cannot_tell :
    (((new ⟨.account "alice", .default⟩).observe aliceEvents).run Accounts.answer aliceAlone).1 =
        (((new ⟨.account "alice", .default⟩).observe aliceEvents).run Accounts.answer
          aliceBesideBob).1 ∧
      aliceAlone.history ⟨"bob", "main"⟩ ≠ aliceBesideBob.history ⟨"bob", "main"⟩ :=
  ⟨(observe_noninterference agree_alice .default aliceEvents).1, by decide⟩

end Session

end BranchSync
