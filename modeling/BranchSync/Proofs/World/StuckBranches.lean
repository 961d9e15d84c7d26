import BranchSync.Proofs.Document.Answering
import BranchSync.Proofs.Document.Headers
import BranchSync.Proofs.Identifier.References
import BranchSync.Proofs.Payload.Transfer
import BranchSync.Proofs.Repository.PackForm
import BranchSync.Proofs.Repository.Repetition
import BranchSync.Proofs.World.SpentStarts

/-!
# Branches that take no more pushes

A push may carry commits that the branch has already, and it may repeat a commit. If the last commit
of a history is such a repetition, the branch is stuck: a push of a new commit from its current tip
is refused, and so is every other push from then on, while a full pull is served with only the part
up to the first occurrence of the tip. On every other branch, the push is applied and the pull is
served with the whole history.
-/

namespace BranchSync

open CommitId (uniform)
open Repository (Stuck)

/-- A push of one commit to a branch, from a tip. -/
structure Advances (target : BranchRef) (tip : Tip) (id : CommitId) (head : Element)
    (children : List Node) : Prop where
  header : head.Pushes target tip.toHex id.toHex
  payload : Node.payload? none children = some (.ok (Pack.encode [id]))

/-- The request of a push of one commit. -/
def advance (target : BranchRef) (tip : Tip) (id : CommitId) : PushRequest :=
  ⟨target, .tip tip, .tip (.commit id), some (Pack.encode [id])⟩

variable {a : Accounts} {target : BranchRef} {context : SyncContext}

/-- A session that is fed a push of one commit runs its request and queues the answer. -/
theorem Advances.run_handleEvents {tip : Tip} {id : CommitId} {head : Element}
    {children : List Node} (h : Advances target tip id head children)
    (hlimit : context.policy.maxPayloadSize = none) (responses : List Response) :
    ((Session.idle context responses).handleEvents (Node.element head children).events).run
        Accounts.answer a =
      let finished := ((advance target tip id).finalize context none).run Accounts.answer a
      ((.ok (), Session.idle context (responses ++ [finished.1.response])), finished.2) := by
  have hheader := h.header.ofElement_eq
  have hlast : TipRef.ofText id.toHex = .tip (.commit id) := TipRef.ofText_toHex (.commit id)
  rw [TipRef.ofText_toHex, hlast] at hheader
  rw [Session.handleEvents_push _ _ h.header.name_eq hheader, hlimit, h.payload]
  simp only [Document.finalizeWith, BackendProgram.run_bind, BackendProgram.run_pure]
  rfl

/-- Unless the branch is stuck, a push of one commit from its tip is applied. -/
theorem run_finalize_advance (haccess : context.principal.canAccess target = true)
    (hknown : (a.repositories.get? target.user).isSome = true)
    (hfree : ¬ Stuck (a.history target)) (id : CommitId) :
    ∃ after, ((advance target (.ofHistory (a.history target)) id).finalize context none).run
        Accounts.answer a =
          ((advance target (.ofHistory (a.history target)) id).accept (.commit id), after) ∧
      after.history target = a.history target ++ [id] := by
  obtain ⟨r, hr⟩ := Option.isSome_iff_exists.mp hknown
  have hhistory : a.history target = r.history target.branch := Accounts.history_eq hr
  rw [hhistory] at hfree ⊢
  have htip : Tip.ofHistory (r.history target.branch ++ [id]) = .commit id := by
    simp [Tip.ofHistory]
  have himport := Repository.importPack_of_not_stuck hfree [id] (Pack.decode_encode [id])
  rw [htip] at himport
  refine ⟨a.afterPush context.principal target
    (r.setHistory target.branch (r.history target.branch ++ [id])), ?_, ?_⟩
  · have hrun : ((advance target (.ofHistory (r.history target.branch)) id).finalize context
        none).run Accounts.answer a = _ :=
      PushRequest.run_finalize_of_import haccess hr himport
    have htip' : (r.setHistory target.branch (r.history target.branch ++ [id])).tip
        target.branch = .commit id := (Repository.tip_setHistory _ _ _).trans htip
    rw [← htip']
    exact hrun
  · rw [Accounts.history_afterPush hr, if_pos rfl]

/-- A pull from the empty tip is served with the history up to where its tip is found. -/
theorem run_handlePull_full {pull : Element} (hpull : pull.Pulls target "")
    (haccess : context.principal.canAccess target = true)
    (hdepth : context.policy.exportDepth = .unbounded)
    (hknown : (a.repositories.get? target.user).isSome = true) {n : Nat}
    (hposition : Repository.position? (a.history target) (.ofHistory (a.history target)) =
      some n) :
    (handlePull context pull).run Accounts.answer a =
      (.ok (PullRequest.serve ⟨target, .tip .empty⟩ (.ofHistory (a.history target))
        (Pack.encode ((a.history target).take n))), a) := by
  have hbase : TipRef.ofText "" = .tip .empty := rfl
  have hempty : Repository.position? (a.history target) .empty = some 0 := rfl
  have hexport := Repository.exportCommits_of_positions hempty hposition (Nat.zero_le n)
    target.branch .unbounded
  rw [BranchSync.run_handlePull, hpull.ofElement_eq, hbase]
  simp only [haccess, if_true, hknown, hdepth, PullRequest.answerFrom, hexport, List.drop_zero,
    Depth.trim]

namespace World

variable {ι : Type*} [DecidableEq ι]

/-- No push is applied to a stuck branch. -/
theorem pushesTo_of_stuck {w : World ι Accounts} (h : Stuck (w.storage.history target))
    (events : List (ι × ParseEvent)) : w.pushesTo target events = [] := by
  induction events generalizing w with
  | nil => rfl
  | cons e rest ih =>
    obtain ⟨i, event⟩ := e
    rcases pushesTo_cons_cases target w i event rest with
      ⟨hpushes, hhistory⟩ | ⟨p, -, -, hextends, -⟩
    · rw [← hhistory] at h
      rw [hpushes]
      exact ih h
    · obtain ⟨tip, -, hend⟩ := hextends.start_eq
      exact absurd hend (h.position?_ne tip)

/-- A stuck branch never changes again. -/
theorem history_run_of_stuck {w : World ι Accounts} (h : Stuck (w.storage.history target))
    (events : List (ι × ParseEvent)) :
    (w.run Accounts.answer events).storage.history target = w.storage.history target := by
  rw [history_run, pushesTo_of_stuck h, List.flatMap_nil, List.append_nil]

/-- In every state that sessions reach, a push of one commit from the tip of a branch is applied,
and a full pull is served with the whole history, unless the branch is stuck: then the push is
refused without a trace, the pull is served with too little, and the branch never changes again. -/
theorem advance_applied_and_pull_whole_unless_stuck (w : World ι Accounts)
    (events : List (ι × ParseEvent))
    (hknown : (w.storage.repositories.get? target.user).isSome = true)
    (pusher puller : SyncContext) (hwrites : pusher.principal.canAccess target = true)
    (hlimit : pusher.policy.maxPayloadSize = none)
    (hreads : puller.principal.canAccess target = true)
    (hdepth : puller.policy.exportDepth = .unbounded) {id : CommitId} {head pull : Element}
    {children : List Node}
    (hpush : Advances target
      (.ofHistory ((w.run Accounts.answer events).storage.history target)) id head children)
    (hpull : pull.Pulls target "") (responses : List Response) :
    let a := (w.run Accounts.answer events).storage
    let history := a.history target
    let pushed := ((Session.idle pusher responses).handleEvents
      (Node.element head children).events).run Accounts.answer a
    let pulled := (handlePull puller pull).run Accounts.answer a
    let full : PullRequest := ⟨target, .tip .empty⟩
    (¬ Stuck history →
      (pushed.1 = (.ok (), Session.idle pusher (responses ++
          [((advance target (.ofHistory history) id).accept (.commit id)).response])) ∧
        pushed.2.history target = history ++ [id]) ∧
      ∃ pack, pulled = (.ok (full.serve (.ofHistory history) pack), a) ∧
        Pack.decode pack = .ok history) ∧
    (Stuck history →
      pushed = ((.ok (), Session.idle pusher (responses ++ [.error Vocabulary.importFailed])), a) ∧
      (∃ pack commits, pulled = (.ok (full.serve (.ofHistory history) pack), a) ∧
        Pack.decode pack = .ok commits ∧ commits.length < history.length) ∧
      ∀ later, (w.run Accounts.answer (events ++ later)).storage.history target = history) := by
  intro a history pushed pulled full
  have hknown' : (a.repositories.get? target.user).isSome = true := by
    rw [show a = _ from rfl, repositories_isSome_run]
    exact hknown
  have hpushed := hpush.run_handleEvents (a := a) hlimit responses
  constructor
  · intro hfree
    obtain ⟨after, hrun, hhistory⟩ := run_finalize_advance hwrites hknown' hfree id
    have hend := Repository.position?_ofHistory hfree
    have hpulled := run_handlePull_full hpull hreads hdepth hknown' hend
    rw [List.take_length] at hpulled
    refine ⟨⟨?_, ?_⟩, _, hpulled, Pack.decode_encode _⟩
    · rw [show pushed = _ from hpushed, hrun]
    · rw [show pushed = _ from hpushed, hrun]
      exact hhistory
  · intro hstuck
    obtain ⟨n, hlt, hposition⟩ := hstuck.spent
    have hstart : (advance target (.ofHistory history) id).start = .tip (.ofHistory history) := rfl
    have hrun := PushRequest.run_finalize_of_spent hstart hstuck.spent hwrites none
    have hpulled := run_handlePull_full hpull hreads hdepth hknown' hposition
    refine ⟨?_, ⟨_, _, hpulled, Pack.decode_encode _, ?_⟩, ?_⟩
    · rw [show pushed = _ from hpushed, hrun]
      rfl
    · rw [List.length_take]
      exact Nat.lt_of_le_of_lt (Nat.min_le_left _ _) hlt
    · intro later
      rw [run_append]
      exact history_run_of_stuck hstuck later

/-- The owner of an account, without limits. -/
def owner : SyncContext := ⟨.account "alice", .default⟩

/-- The branch of the owner. -/
def ownBranch : BranchRef := ⟨"alice", "main"⟩

/-- The only session of a new account. -/
def ownerAlone : World Unit Accounts := ⟨Accounts.empty.addAccount "alice", fun _ => .new owner⟩

/-- The header of a push of the owner. -/
def ownHeader (start last : Tip) : Element :=
  .ofAttributes Vocabulary.syncPush [(Vocabulary.branch, "main"),
    (Vocabulary.startCommit, start.toHex), (Vocabulary.lastCommit, last.toHex),
    (Vocabulary.serverUser, "alice")]

/-- The content of a push of the owner. -/
def ownContent (commits : List CommitId) : List Node :=
  [.element (.ofAttributes Vocabulary.pack []) [.text (Payload.encode (Pack.encode commits))]]

/-- A full pull by the owner. -/
def ownPull : Element :=
  .ofAttributes Vocabulary.syncPull [(Vocabulary.branch, "main"), (Vocabulary.serverUser, "alice"),
    (Vocabulary.base, "")]

/-- The owner pushes single commits from any tip. -/
theorem advances_own (tip : Tip) (id : CommitId) :
    Advances ownBranch tip id (ownHeader tip (.commit id)) (ownContent [id]) where
  header := ⟨rfl, rfl, rfl, rfl, rfl⟩
  payload := congrArg some (Payload.decode_encode (Pack.encode [id]))

/-- The events of a first push, which ends with the commit that it began with. -/
def repeatingEvents : List (Unit × ParseEvent) :=
  (Node.element (ownHeader .empty (.commit (uniform 10)))
    (ownContent [uniform 10, uniform 11, uniform 10])).events.map fun event => ((), event)

/-- That push is applied, and the branch ends in a repetition. -/
theorem run_repeatingEvents :
    (ownerAlone.run Accounts.answer repeatingEvents).storage =
      (Accounts.empty.addAccount "alice").setHistory ownBranch
        [uniform 10, uniform 11, uniform 10] := by
  decide +kernel

/-- After it, a push of a new commit from the tip of the branch is refused, and a full pull is
served with the first commit only. -/
theorem ownerAlone_gets_stuck :
    let a := (ownerAlone.run Accounts.answer repeatingEvents).storage
    let head := ownHeader (.commit (uniform 10)) (.commit (uniform 12))
    let pushed := ((Session.idle owner []).handleEvents
      (Node.element head (ownContent [uniform 12])).events).run Accounts.answer a
    let pulled := (handlePull owner ownPull).run Accounts.answer a
    a.history ownBranch = [uniform 10, uniform 11, uniform 10] ∧
      uniform 12 ∉ a.history ownBranch ∧
      pushed = ((.ok (), Session.idle owner [.error Vocabulary.importFailed]), a) ∧
      pulled = (.ok (PullRequest.serve ⟨ownBranch, .tip .empty⟩ (.commit (uniform 10))
        (Pack.encode [uniform 10])), a) := by
  dsimp only
  rw [run_repeatingEvents]
  refine ⟨rfl, ?_, rfl, rfl⟩
  decide

/-- A push of the owner to the new account is applied, and after the one that repeats a commit the
branch does not change any more. -/
theorem ownerAlone_free_then_stuck :
    let first := ((Session.idle owner []).handleEvents (Node.element
      (ownHeader .empty (.commit (uniform 10))) (ownContent [uniform 10])).events).run
        Accounts.answer ownerAlone.storage
    first.2.history ownBranch = [uniform 10] ∧
      ∀ later, (ownerAlone.run Accounts.answer (repeatingEvents ++ later)).storage.history
        ownBranch = [uniform 10, uniform 11, uniform 10] := by
  intro first
  have hpull : ownPull.Pulls ownBranch "" := ⟨rfl, rfl, rfl, rfl⟩
  have hfree : ¬ Stuck ([] : List CommitId) := Repository.not_stuck_of_nodup List.nodup_nil
  have hstuck : Stuck [uniform 10, uniform 11, uniform 10] :=
    ⟨[uniform 10, uniform 11], uniform 10, rfl, List.mem_cons_self⟩
  have hreached : (ownerAlone.run Accounts.answer repeatingEvents).storage.history ownBranch =
      [uniform 10, uniform 11, uniform 10] := by
    rw [run_repeatingEvents]
    rfl
  constructor
  · have hfirst := advance_applied_and_pull_whole_unless_stuck ownerAlone [] rfl owner owner rfl rfl
      rfl rfl (advances_own .empty (uniform 10)) hpull []
    exact (hfirst.1 hfree).1.2
  · have hlater := advance_applied_and_pull_whole_unless_stuck ownerAlone repeatingEvents rfl owner
      owner rfl rfl rfl rfl (advances_own _ (uniform 12)) hpull []
    rw [hreached] at hlater
    exact (hlater.2 hstuck).2.2

end World

end BranchSync
