import BranchSync.Proofs.Identifier.References
import BranchSync.Proofs.Push.Stages
import BranchSync.Proofs.Session.Atomicity
import Mathlib.Data.List.Induction
import Mathlib.Logic.Function.Basic

/-!
# Pushes that race to tell the owner

Pushes to one branch are finalized on different sessions at the same time. The accounts answer one
call at a time, but between two calls of a push any calls of the others may come. The import, the
reading of the tip after it and the notice to the owner are calls of their own, so a push may tell
the mailbox a tip that is no longer the newest, after a later push has told it the newest one.

`Race` runs the calls in any order. When all pushes have their answers, the mailbox shows the tip
that the last of them to tell it had read back, and this is the newest one exactly when the branch
did not get another tip after that reading.
-/

namespace BranchSync

/-- The tip that a call tells a mailbox. -/
def BackendCall.tells? : BackendCall → Option String
  | .updateChannelTip _ _ hex => some hex
  | _ => none

/-- What pushes still have to do, by their names, and the accounts that answer their calls. -/
structure Race (ι : Type*) where
  storage : Accounts
  pushes : ι → BackendProgram PushAnswer

namespace Race

variable {ι : Type*}

/-- All pushes are about to be finalized. -/
def start (accounts : Accounts) (contenders : ι → Contender) : Race ι :=
  ⟨accounts, fun i => (contenders i).finalize⟩

/-- The answer of a push that is finished. -/
def answer? (w : Race ι) (i : ι) : Option PushAnswer :=
  match w.pushes i with
  | .done answer => some answer
  | .call _ _ => none

/-- The tip that a push was acknowledged with, if it is finished and was applied. -/
def acknowledged? (w : Race ι) (i : ι) : Option Tip :=
  (w.answer? i).bind PushAnswer.applied?

variable [DecidableEq ι]

/-- One push makes its next call. -/
def step (w : Race ι) (i : ι) : Race ι :=
  let advanced := (w.pushes i).advance Accounts.answer w.storage
  ⟨advanced.2, Function.update w.pushes i advanced.1⟩

/-- The pushes make their calls in the given order. -/
def run (w : Race ι) (schedule : List ι) : Race ι :=
  schedule.foldl step w

/-- What mailboxes are told, and by which push, in this order. -/
def tellings (w : Race ι) : List ι → List (ι × String)
  | [] => []
  | i :: rest =>
    (((w.pushes i).call?.bind BackendCall.tells?).map fun tip => (i, tip)).toList ++
      (w.step i).tellings rest

/-- Calls in a row are made one part after the other. -/
theorem run_append (w : Race ι) (first second : List ι) :
    w.run (first ++ second) = (w.run first).run second :=
  List.foldl_append

/-- One more call is made after the others. -/
theorem run_concat (w : Race ι) (schedule : List ι) (i : ι) :
    w.run (schedule ++ [i]) = (w.run schedule).step i :=
  w.run_append schedule [i]

/-- What mailboxes are told in a row is told one part after the other. -/
theorem tellings_append (w : Race ι) (first second : List ι) :
    w.tellings (first ++ second) = w.tellings first ++ (w.run first).tellings second := by
  induction first generalizing w with
  | nil => rfl
  | cons i rest ih =>
    rw [List.cons_append, tellings, tellings, ih, List.append_assoc]
    rfl

/-! ### What a mailbox holds -/

/-- What a mailbox holds of a branch while pushes to the branch stand at stages: the last tip that
it was told is pending, and visible as well unless a push is about to make it so. The push that told
it has not gone further than to its answer, and without such a push none has come so far. -/
structure Informed (branch : String) (stages : ι → PushStage) (last : Option (ι × Tip))
    (m : Mailbox) : Prop where
  pending_eq : m.pending.get? branch = last.map fun told => told.2.toHex
  committed_eq : m.committed.get? branch = m.pending.get? branch ∨
    ∃ i tip, stages i = .committing tip
  untold : last = none → ∀ i, (stages i).told? = none
  teller : ∀ i tip, last = some (i, tip) → (stages i).told? = some tip

variable {branch : String} {stages : ι → PushStage} {last : Option (ι × Tip)} {m : Mailbox}

/-- A push that is about to make visible what was told stays so while another one moves. -/
theorem exists_committing_update (h : ∃ j tip, stages j = .committing tip) {i : ι}
    (hi : ∀ tip, stages i ≠ .committing tip) (stage : PushStage) :
    ∃ j tip, Function.update stages i stage j = .committing tip := by
  obtain ⟨j, tip, hj⟩ := h
  have hne : j ≠ i := by
    intro hsame
    rw [hsame] at hj
    exact hi tip hj
  exact ⟨j, tip, by rw [Function.update_of_ne hne, hj]⟩

/-- A push that neither has told the mailbox nor tells it does not matter to it. -/
theorem Informed.quiet (h : Informed branch stages last m) {i : ι} {stage : PushStage}
    (hbefore : (stages i).told? = none) (hafter : stage.told? = none) :
    Informed branch (Function.update stages i stage) last m where
  pending_eq := h.pending_eq
  committed_eq := by
    rcases h.committed_eq with hsame | hcommitting
    · exact Or.inl hsame
    · refine Or.inr (exists_committing_update hcommitting ?_ stage)
      intro tip hi
      rw [hi] at hbefore
      cases hbefore
  untold := by
    intro hnone j
    by_cases hj : j = i
    · rw [hj, Function.update_self, hafter]
    · rw [Function.update_of_ne hj, h.untold hnone j]
  teller := by
    intro j tip hsome
    have htold := h.teller j tip hsome
    have hne : j ≠ i := by
      rintro rfl
      rw [hbefore] at htold
      cases htold
    rw [Function.update_of_ne hne, htold]

/-- A push tells the mailbox a tip, and goes on to make it visible unless the mailbox knew it. -/
theorem Informed.tell (h : Informed branch stages last m) {i : ι} {tip : Tip} {stage : PushStage}
    (hbefore : stages i = .telling tip) (hafter : stage.told? = some tip)
    (hcommits : m.pending.get? branch = some tip.toHex ∨ stage = .committing tip) :
    Informed branch (Function.update stages i stage) (some (i, tip))
      (m.updateChannelTip branch tip.toHex).2 where
  pending_eq := by simp [Mailbox.updateChannelTip]
  committed_eq := by
    rcases hcommits with hknown | hcommitting
    · rcases h.committed_eq with hsame | hcommitting
      · refine Or.inl ?_
        simp [Mailbox.updateChannelTip, hsame, hknown]
      · refine Or.inr (exists_committing_update hcommitting ?_ stage)
        intro tip' hi
        rw [hi] at hbefore
        cases hbefore
    · exact Or.inr ⟨i, tip, by rw [Function.update_self, hcommitting]⟩
  untold := by
    intro hnone
    cases hnone
  teller := by
    intro j tip' hsome
    cases hsome
    rw [Function.update_self, hafter]

/-- A push makes visible what the mailbox was told. -/
theorem Informed.commit (h : Informed branch stages last m) {i : ι} {tip : Tip} {stage : PushStage}
    (hbefore : stages i = .committing tip) (hafter : stage.told? = some tip) :
    Informed branch (Function.update stages i stage) last m.commit where
  pending_eq := h.pending_eq
  committed_eq := Or.inl rfl
  untold := by
    intro hnone
    have htold := h.untold hnone i
    rw [hbefore] at htold
    cases htold
  teller := by
    intro j tip' hsome
    have htold := h.teller j tip' hsome
    by_cases hj : j = i
    · rw [hj, hbefore] at htold
      rw [hj, Function.update_self, hafter, ← htold]
      rfl
    · rw [Function.update_of_ne hj, htold]

/-! ### The course of a race -/

/-- At some point of a schedule it was the turn of a push that had imported its pack and had come to
read the tip back, and the tip was this one. -/
def ReadBack (w : Race ι) (contenders : ι → Contender) (target : BranchRef) (schedule : List ι)
    (i : ι) (tip : Tip) : Prop :=
  ∃ before after, schedule = before ++ i :: after ∧
    (w.run before).pushes i = (contenders i).rest .readingBack ∧
    tip = .ofHistory ((w.run before).storage.history target)

/-- What was read back stays so when the schedule goes on. -/
theorem ReadBack.append {w : Race ι} {contenders : ι → Contender} {target : BranchRef}
    {schedule : List ι} {i : ι} {tip : Tip} (h : w.ReadBack contenders target schedule i tip)
    (later : List ι) : w.ReadBack contenders target (schedule ++ later) i tip := by
  obtain ⟨before, after, rfl, hpush, htip⟩ := h
  exact ⟨before, after ++ later, by simp, hpush, htip⟩

/-- What holds after a schedule: the pushes stand at stages, each tip that one of them goes on with
was read back, and the mailbox holds the tip that it was told last. -/
structure Course (w : Race ι) (contenders : ι → Contender) (target : BranchRef)
    (schedule : List ι) (stages : ι → PushStage) (last : Option (ι × Tip)) : Prop where
  pushes_eq : ∀ i, (w.run schedule).pushes i = (contenders i).rest (stages i)
  seen : ∀ i tip, (stages i).seen? = some tip → w.ReadBack contenders target schedule i tip
  tellings_eq : (w.tellings schedule).getLast? = last.map fun told => (told.1, told.2.toHex)
  informed : ∃ m, (w.run schedule).storage.mailboxes.get? target.user = some m ∧
    Informed target.branch stages last m

variable {w : Race ι} {contenders : ι → Contender} {target : BranchRef} {schedule : List ι}

/-- What mailboxes were told before and after one more call. -/
theorem tellings_concat (h : ∀ i, (w.run schedule).pushes i = (contenders i).rest (stages i))
    (i : ι) :
    w.tellings (schedule ++ [i]) = w.tellings schedule ++
      ((((contenders i).rest (stages i)).call?.bind BackendCall.tells?).map
        fun tip => (i, tip)).toList := by
  rw [tellings_append, tellings, tellings, List.append_nil, h i]

/-- A push that makes no more calls changes nothing. -/
theorem Course.idle (h : w.Course contenders target schedule stages last) {i : ι}
    {answer : PushAnswer} (hanswered : stages i = .answered answer) :
    w.Course contenders target (schedule ++ [i]) stages last := by
  have hrest : (w.run schedule).pushes i = .done answer := by
    rw [h.pushes_eq i, hanswered]
    rfl
  have hrun : w.run (schedule ++ [i]) = w.run schedule := by
    rw [run_concat, step, hrest]
    change Race.mk (w.run schedule).storage (Function.update _ i (.done answer)) = _
    rw [← hrest, Function.update_eq_self]
  constructor
  · rw [hrun]
    exact h.pushes_eq
  · intro j tip hseen
    exact (h.seen j tip hseen).append [i]
  · rw [tellings_concat h.pushes_eq, hanswered, ← h.tellings_eq]
    change (_ ++ []).getLast? = _
    rw [List.append_nil]
  · rw [hrun]
    exact h.informed

/-- One more call extends a course, if the tip that the push goes on with was read back, and the
mailbox holds what it was told last. -/
theorem Course.extend (h : w.Course contenders target schedule stages last) {i : ι}
    {call : BackendCall} {stage' : PushStage} {a' : Accounts} (last' : Option (ι × Tip))
    (hcall : ((contenders i).rest (stages i)).call? = some call)
    (hadvance : ((contenders i).rest (stages i)).advance Accounts.answer (w.run schedule).storage =
      ((contenders i).rest stage', a'))
    (hseen : ∀ tip, stage'.seen? = some tip → w.ReadBack contenders target (schedule ++ [i]) i tip)
    (hlast : call.tells? = none ∧ last' = last ∨
      ∃ tip, call.tells? = some tip.toHex ∧ last' = some (i, tip))
    (hinformed : ∃ m, a'.mailboxes.get? target.user = some m ∧
      Informed target.branch (Function.update stages i stage') last' m) :
    w.Course contenders target (schedule ++ [i]) (Function.update stages i stage') last' := by
  have hrun : w.run (schedule ++ [i]) =
      ⟨a', Function.update (w.run schedule).pushes i ((contenders i).rest stage')⟩ := by
    rw [run_concat, step, h.pushes_eq i, hadvance]
  constructor
  · intro j
    rw [hrun]
    change Function.update _ i _ j = _
    by_cases hj : j = i
    · rw [hj, Function.update_self, Function.update_self]
    · rw [Function.update_of_ne hj, Function.update_of_ne hj]
      exact h.pushes_eq j
  · intro j tip
    by_cases hj : j = i
    · rw [hj, Function.update_self]
      exact hseen tip
    · rw [Function.update_of_ne hj]
      intro hother
      exact (h.seen j tip hother).append [i]
  · rw [tellings_concat h.pushes_eq, hcall]
    rcases hlast with ⟨hsilent, rfl⟩ | ⟨tip, htells, rfl⟩
    · simp [hsilent, h.tellings_eq]
    · simp [htells]
  · rw [hrun]
    exact hinformed

/-- Whatever call comes next, the course goes on. -/
theorem Course.step (h : w.Course contenders target schedule stages last)
    (htarget : ∀ i, (contenders i).request.target = target)
    (howns : ∀ i, (contenders i).context.principal.owns target.user = false) (i : ι) :
    ∃ stages' last', w.Course contenders target (schedule ++ [i]) stages' last' := by
  obtain ⟨m, hm, hinformed⟩ := h.informed
  have hadvances := Contender.answered_or_advances (c := contenders i) (m := m)
    (a := (w.run schedule).storage)
  rw [htarget i] at hadvances
  rcases hadvances (howns i) hm (stages i) with
    ⟨answer, hanswered⟩ | ⟨call, stage', a', hcall, hadvance, hadv⟩
  · exact ⟨stages, last, h.idle hanswered⟩
  · rw [htarget i] at hadv
    have hseen : ∀ tip, stage'.seen? = some tip →
        w.ReadBack contenders target (schedule ++ [i]) i tip := by
      intro tip htip
      rcases hadv.seen?_cases htip with hbefore | ⟨hreading, htip'⟩
      · exact (h.seen i tip hbefore).append [i]
      · exact ⟨schedule, [], rfl, by rw [h.pushes_eq, hreading], htip'⟩
    have hextend (last') := h.extend last' hcall hadvance hseen
    refine ⟨Function.update stages i stage', ?_⟩
    -- the mailbox holds what it should in each case, by the lemma for what the call does to it
    generalize hstage : stages i = stage at hadv
    cases hadv with
    | quiet htold hkind hnone hmailboxes =>
      refine ⟨last, hextend _ (Or.inl ⟨?_, rfl⟩) ⟨m, ?_, ?_⟩⟩
      · cases call with
        | updateChannelTip user branch tip => exact absurd rfl hkind
        | _ => rfl
      · rw [hmailboxes, hm]
      · exact hinformed.quiet (by rw [hstage, htold]) (PushStage.told?_of_seen? hnone)
    | readBack =>
      exact ⟨last, hextend _ (Or.inl ⟨rfl, rfl⟩) ⟨m, hm, hinformed.quiet (by rw [hstage]; rfl) rfl⟩⟩
    | found tip =>
      exact ⟨last, hextend _ (Or.inl ⟨rfl, rfl⟩) ⟨m, hm, hinformed.quiet (by rw [hstage]; rfl) rfl⟩⟩
    | told tip hnew =>
      exact ⟨some (i, tip), hextend _ (Or.inr ⟨tip, rfl, rfl⟩)
        ⟨_, Table.get?_insert_self _ _ _, hinformed.tell hstage rfl (Or.inr rfl)⟩⟩
    | retold tip answer hanswer hknown =>
      exact ⟨some (i, tip), hextend _ (Or.inr ⟨tip, rfl, rfl⟩)
        ⟨_, Table.get?_insert_self _ _ _, hinformed.tell hstage hanswer (Or.inl hknown)⟩⟩
    | committed tip answer hanswer =>
      exact ⟨last, hextend _ (Or.inl ⟨rfl, rfl⟩)
        ⟨_, Table.get?_insert_self _ _ _, hinformed.commit hstage hanswer⟩⟩

/-- A race begins with nothing read back and nothing told. -/
theorem exists_course_nil (contenders : ι → Contender) {accounts : Accounts}
    (hfresh : accounts.mailboxes.get? target.user = some .empty) :
    ∃ stages, (start accounts contenders).Course contenders target [] stages none := by
  choose stages hrest hseen htold using fun i => (contenders i).exists_finalize_eq
  refine ⟨stages, hrest, ?_, rfl, .empty, hfresh, rfl, Or.inl rfl, fun _ => htold, ?_⟩
  · intro i tip hsome
    rw [hseen i] at hsome
    cases hsome
  · intro i tip hsome
    cases hsome

/-- After every schedule the pushes stand at stages, and the mailbox holds what it was told last. -/
theorem exists_course {accounts : Accounts}
    (htarget : ∀ i, (contenders i).request.target = target)
    (howns : ∀ i, (contenders i).context.principal.owns target.user = false)
    (hfresh : accounts.mailboxes.get? target.user = some .empty) (schedule : List ι) :
    ∃ stages last, (start accounts contenders).Course contenders target schedule stages last := by
  -- the schedule grows at its end, where the stages that the pushes have reached are known
  induction schedule using List.reverseRecOn with
  | nil =>
    obtain ⟨stages, hcourse⟩ := exists_course_nil contenders hfresh
    exact ⟨stages, none, hcourse⟩
  | append_singleton before i ih =>
    obtain ⟨stages, last, hcourse⟩ := ih
    exact hcourse.step htarget howns i

/-- A push that is finished stands at its answer. -/
theorem Course.answered (h : w.Course contenders target schedule stages last) {i : ι}
    (hfinished : ((w.run schedule).answer? i).isSome = true) :
    ∃ answer, stages i = .answered answer ∧ (w.run schedule).answer? i = some answer := by
  unfold answer? at hfinished ⊢
  rw [h.pushes_eq i] at hfinished ⊢
  cases hrest : (contenders i).rest (stages i) with
  | done answer => exact ⟨answer, Contender.eq_answered_of_rest hrest, rfl⟩
  | call request next =>
    rw [hrest] at hfinished
    cases hfinished

/-- When all pushes are finished and one of them was applied, the mailbox shows the tip that it was
told last, which an applied push had read back. -/
theorem Course.finished (h : w.Course contenders target schedule stages last)
    (hfinished : ∀ i, ((w.run schedule).answer? i).isSome = true)
    (happlied : ∃ i, ((w.run schedule).acknowledged? i).isSome = true) :
    ∃ m i tip, (w.run schedule).storage.mailboxes.get? target.user = some m ∧
      m.channelTip target.branch = some tip.toHex ∧ last = some (i, tip) ∧
      (w.run schedule).acknowledged? i = some tip ∧
      w.ReadBack contenders target schedule i tip := by
  have htold : ∀ i, (w.run schedule).acknowledged? i = (stages i).told? := by
    intro i
    obtain ⟨answer, hstage, hanswer⟩ := h.answered (hfinished i)
    rw [acknowledged?, hanswer, hstage]
    rfl
  obtain ⟨m, hm, hinformed⟩ := h.informed
  obtain ⟨⟨i, tip⟩, hlast⟩ : ∃ told, last = some told := by
    obtain ⟨i, hi⟩ := happlied
    cases hlast : last with
    | some told => exact ⟨told, rfl⟩
    | none =>
      rw [htold i, hinformed.untold hlast i] at hi
      cases hi
  have hteller := hinformed.teller i tip hlast
  have hvisible : m.committed.get? target.branch = m.pending.get? target.branch := by
    rcases hinformed.committed_eq with hsame | ⟨j, tip', hj⟩
    · exact hsame
    · obtain ⟨answer, hstage, -⟩ := h.answered (hfinished j)
      rw [hj] at hstage
      cases hstage
  refine ⟨m, i, tip, hm, ?_, hlast, (htold i).trans hteller, h.seen i tip ?_⟩
  · rw [Mailbox.channelTip, hvisible, hinformed.pending_eq, hlast]
    rfl
  · obtain ⟨answer, hstage, -⟩ := h.answered (hfinished i)
    rw [hstage] at hteller ⊢
    exact hteller

/-- Pushes to one branch by others than its owner are finalized at the same time, with their calls
in any order, over accounts in memory whose owner has a fresh mailbox. When all of them are finished
and at least one was applied, the mailbox shows the tip that the last push to tell it had read back
after its import, and acknowledged. So it shows the tip of the branch exactly when that tip still is
the tip of the branch. -/
theorem channelTip_current_iff_last_told {contenders : ι → Contender} {target : BranchRef}
    {accounts : Accounts} (htarget : ∀ i, (contenders i).request.target = target)
    (howns : ∀ i, (contenders i).context.principal.owns target.user = false)
    (hfresh : accounts.mailboxes.get? target.user = some .empty) (schedule : List ι) :
    let begun := start accounts contenders
    let ended := begun.run schedule
    (∀ i, (ended.answer? i).isSome = true) → (∃ i, (ended.acknowledged? i).isSome = true) →
    ∃ m i tip, ended.storage.mailboxes.get? target.user = some m ∧
      (begun.tellings schedule).getLast? = some (i, tip.toHex) ∧
      ended.acknowledged? i = some tip ∧
      begun.ReadBack contenders target schedule i tip ∧
      m.channelTip target.branch = some tip.toHex ∧
      (m.channelTip target.branch = some (Tip.ofHistory (ended.storage.history target)).toHex ↔
        tip = .ofHistory (ended.storage.history target)) := by
  intro begun ended hfinished happlied
  obtain ⟨stages, last, hcourse⟩ := exists_course htarget howns hfresh schedule
  obtain ⟨m, i, tip, hm, hchannel, hlast, hacknowledged, hread⟩ :=
    hcourse.finished hfinished happlied
  refine ⟨m, i, tip, hm, ?_, hacknowledged, hread, hchannel, ?_⟩
  · rw [hcourse.tellings_eq, hlast]
    rfl
  · rw [hchannel, Option.some.injEq, Tip.toHex_inj]

/-- Two pushes of a party with a grant for `main` of `alice`: a first commit, and a second one on
top of it. -/
def twoPushes : Bool → Contender
  | false => ⟨⟨⟨"alice", "main"⟩, .tip .empty, .tip (.commit (.uniform 170)),
      some (Pack.encode [.uniform 170])⟩, Session.guest, none⟩
  | true => ⟨⟨⟨"alice", "main"⟩, .tip (.commit (.uniform 170)), .tip (.commit (.uniform 187)),
      some (Pack.encode [.uniform 187])⟩, Session.guest, none⟩

/-- The two pushes before their first calls; the branch does not exist yet. -/
def twoBegun : Race Bool := start (Accounts.empty.addAccount "alice") twoPushes

/-- The second push reads the tip back before the first one has told the mailbox, but tells it
later. -/
def inOrder : List Bool :=
  [false, false, false, true, true, true, false, false, false, true, true, true]

/-- The second push runs between the first one's reading of the tip and its notice. -/
def overtaking : List Bool :=
  [false, false, false, true, true, true, true, true, true, false, false, false]

/-- When the pushes tell the mailbox in the order of their imports, it shows the second commit. -/
theorem inOrder_shows_tip :
    ∃ m, (twoBegun.run inOrder).storage.mailboxes.get? "alice" = some m ∧
      (twoBegun.run inOrder).storage.history ⟨"alice", "main"⟩ = [.uniform 170, .uniform 187] ∧
      m.channelTip "main" = some (Tip.commit (.uniform 187)).toHex := by
  have htarget : ∀ i, (twoPushes i).request.target = ⟨"alice", "main"⟩ := by decide
  have howns : ∀ i, (twoPushes i).context.principal.owns "alice" = false := by decide
  have hfresh : (Accounts.empty.addAccount "alice").mailboxes.get? "alice" = some .empty := rfl
  have hfinished : ∀ i, ((twoBegun.run inOrder).answer? i).isSome = true := by decide +kernel
  have happlied : ∃ i, ((twoBegun.run inOrder).acknowledged? i).isSome = true := by decide +kernel
  obtain ⟨m, i, tip, hm, htold, -, -, hchannel, -⟩ :=
    channelTip_current_iff_last_told htarget howns hfresh inOrder hfinished happlied
  have htellings : (twoBegun.tellings inOrder).getLast? =
      some (true, (Tip.commit (.uniform 187)).toHex) := by decide +kernel
  have hlast := htold.symm.trans htellings
  rw [Option.some.injEq, Prod.mk.injEq] at hlast
  rw [hlast.2] at hchannel
  exact ⟨m, hm, by decide +kernel, hchannel⟩

/-- When the first push tells the mailbox last, both pushes are applied and the second commit is the
tip, but the mailbox shows the first one. -/
theorem overtaking_hides_tip :
    (∀ i, ((twoBegun.run overtaking).acknowledged? i).isSome = true) ∧
      (twoBegun.run overtaking).storage.history ⟨"alice", "main"⟩ =
        [.uniform 170, .uniform 187] ∧
      ((twoBegun.run overtaking).storage.mailboxes.get? "alice").map (·.channelTip "main") =
        some (some (Tip.commit (.uniform 170)).toHex) ∧
      (Tip.commit (.uniform 170)).toHex ≠ (Tip.commit (.uniform 187)).toHex := by
  decide +kernel

end Race

end BranchSync
