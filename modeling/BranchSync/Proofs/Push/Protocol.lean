import BranchSync.Proofs.Checks
import BranchSync.Proofs.Push.Discipline
import BranchSync.Push.Exchange

/-!
# Calls to an exchange in any order

A session drives the exchange of a push in the order of the events. The exchange itself takes its
calls in any order and with any arguments, against a storage that replies as it likes. What a single
call does is said by `Performed.Lawful`; it needs to know that a pack is only ever set together with
closing its collector. How many answers are still to come shows in the phase, and every call that
answers or imports uses one up.
-/

namespace BranchSync

/-- A phase moves forward: the header is accepted or rejected, and the closing tag finalizes. -/
inductive PushPhase.Moves : PushPhase → PushPhase → Prop
  | stay (phase : PushPhase) : Moves phase phase
  | accept : Moves .awaitingHeader .awaitingPayload
  | reject : Moves .awaitingHeader .rejected
  | close : Moves .awaitingPayload .finalized

/-- How many answers are still to come, at most. -/
def PushPhase.pending : PushPhase → Nat
  | .awaitingHeader => 1
  | .awaitingPayload => 1
  | .finalized => 0
  | .rejected => 0

/-- Moving forward, no more answers are to come. -/
theorem PushPhase.Moves.pending_le {phase later : PushPhase} (h : phase.Moves later) :
    later.pending ≤ phase.pending := by
  cases h <;> simp [pending]

/-- A request that is read from a header carries no pack yet. -/
theorem PushRequest.pack_of_ofElement {element : Element} {request : PushRequest}
    (h : ofElement element = .ok request) : request.pack = none := by
  simp only [ofElement, bind_eq_ok_iff, pure_eq_ok_iff] at h
  obtain ⟨_, -, _, -, _, -, _, -, rfl⟩ := h
  rfl

namespace PushExchange

/-- A call to an exchange. -/
inductive Call where
  | header (element : Element)
  | payloadStart
  | payloadText (text : String)
  | payloadEnd
  | finish
  deriving DecidableEq

/-- What a call returns. -/
inductive Returned where
  | done
  | serves (gathers : Bool)
  | answered (answer : PushAnswer)
  | failed (e : SyncError)
  deriving DecidableEq

namespace Returned

/-- What a header returns. -/
def ofHeader : Except SyncError Unit → Returned
  | .ok () => .done
  | .error e => .failed e

/-- What a closing returns. -/
def ofFinish : Except SyncError PushAnswer → Returned
  | .ok answer => .answered answer
  | .error e => .failed e

/-- The response that goes out with it. -/
def response? : Returned → Option Response
  | .done => none
  | .serves _ => none
  | .answered answer => some answer.response
  | .failed _ => none

/-- No response goes out with a header. -/
theorem response?_ofHeader (result : Except SyncError Unit) : (ofHeader result).response? = none := by
  cases result <;> rfl

end Returned

/-- Perform a call: what it asks of the storage and returns, and the exchange that it leaves. -/
def perform (context : SyncContext) (exchange : PushExchange) :
    Call → BackendProgram Returned × PushExchange
  | .header element =>
    let (result, after) := exchange.header context.policy element
    (pure (.ofHeader result), after)
  | .payloadStart =>
    let (gathers, after) := exchange.payloadStart
    (pure (.serves gathers), after)
  | .payloadText text => (pure .done, exchange.payloadText text)
  | .payloadEnd => (pure .done, exchange.payloadEnd)
  | .finish =>
    let (program, after) := exchange.finish context
    (Returned.ofFinish <$> program, after)

/-- A call that was performed: between which exchanges, and what it returned. -/
structure Performed where
  call : Call
  before : PushExchange
  returned : Returned
  after : PushExchange

/-- Perform calls in order. -/
def performAll (context : SyncContext) :
    PushExchange → List Call → BackendProgram (List Performed)
  | _, [] => pure []
  | exchange, call :: rest => do
    let returned ← (exchange.perform context call).1
    let later ← performAll context (exchange.perform context call).2 rest
    pure (⟨call, exchange, returned, (exchange.perform context call).2⟩ :: later)

/-- Each call was performed on the exchange that the one before it left. -/
def Linked : PushExchange → List Performed → Prop
  | _, [] => True
  | exchange, x :: rest => x.before = exchange ∧ Linked x.after rest

/-- Whether a call is the closing of a push whose payload is awaited. -/
def Performed.closes (x : Performed) : Bool :=
  decide (x.call = .finish ∧ x.before.phase = .awaitingPayload)

/-- What a call keeps to, whatever the storage replies. -/
structure Performed.Lawful (x : Performed) : Prop where
  moves : x.before.phase.Moves x.after.phase
  stays : x.before.phase = .finalized ∨ x.before.phase = .rejected → x.after = x.before
  response_iff : x.returned.response?.isSome = true ↔
    x.call = .finish ∧ x.before.phase = .awaitingPayload
  early_finish : x.call = .finish →
    x.before.phase = .awaitingHeader ∨ x.before.phase = .rejected →
    x.returned = .failed (.unexpectedEvent .finish x.before.phase) ∧ x.after = x.before
  late_finish : x.call = .finish → x.before.phase = .finalized →
    x.returned = .failed .alreadyFinalized ∧ x.after = x.before
  late_header : ∀ element, x.call = .header element → x.before.phase ≠ .awaitingHeader →
    x.returned = .failed (.unexpectedEvent .header x.before.phase) ∧ x.after = x.before
  pack_kept : ∀ request request' pack, x.before.request? = some request →
    x.after.request? = some request' → request.pack = some pack → request'.pack = some pack

/-- A pack that is set was gathered by a collector that is done. -/
def PackSettled : PushExchange → Prop
  | .awaitingPayload request collector _ => request.pack.isSome = true → collector.phase = .done
  | _ => True

variable {context : SyncContext} {exchange : PushExchange} {call : Call}

/-- A call moves the phase forward. -/
theorem moves_perform (context : SyncContext) (exchange : PushExchange) (call : Call) :
    exchange.phase.Moves (exchange.perform context call).2.phase := by
  cases call with
  | header element =>
    cases exchange with
    | awaitingHeader =>
      simp only [perform, header]
      cases PushRequest.ofElement element with
      | ok request => exact .accept
      | error e => exact .reject
    | awaitingPayload request collector fault => exact .stay _
    | finalized => exact .stay _
    | rejected => exact .stay _
  | payloadStart => cases exchange <;> exact .stay _
  | payloadText text => cases exchange <;> exact .stay _
  | payloadEnd =>
    cases exchange with
    | awaitingPayload request collector fault =>
      simp only [perform, payloadEnd]
      split <;> exact .stay _
    | awaitingHeader => exact .stay _
    | finalized => exact .stay _
    | rejected => exact .stay _
  | finish =>
    cases exchange with
    | awaitingPayload request collector fault => exact .close
    | awaitingHeader => exact .stay _
    | finalized => exact .stay _
    | rejected => exact .stay _

/-- No call changes an exchange that is finalized or rejected. -/
theorem perform_of_over (h : exchange.phase = .finalized ∨ exchange.phase = .rejected)
    (call : Call) : (exchange.perform context call).2 = exchange := by
  cases exchange with
  | awaitingHeader => simp [phase] at h
  | awaitingPayload request collector fault => simp [phase] at h
  | finalized => cases call <;> rfl
  | rejected => cases call <;> rfl

/-- A call closes a push whose payload is awaited, or it asks nothing of the storage and returns no
response. -/
theorem perform_cases (context : SyncContext) (exchange : PushExchange) (call : Call) :
    (∃ request collector fault,
      call = .finish ∧ exchange = .awaitingPayload request collector fault) ∨
    (¬ (call = .finish ∧ exchange.phase = .awaitingPayload) ∧ ∃ returned,
      (exchange.perform context call).1 = pure returned ∧ returned.response? = none) := by
  cases call with
  | header element =>
    exact Or.inr ⟨by simp, _, rfl, Returned.response?_ofHeader _⟩
  | payloadStart => exact Or.inr ⟨by simp, _, rfl, rfl⟩
  | payloadText text => exact Or.inr ⟨by simp, _, rfl, rfl⟩
  | payloadEnd => exact Or.inr ⟨by simp, _, rfl, rfl⟩
  | finish =>
    cases exchange with
    | awaitingPayload request collector fault => exact Or.inl ⟨request, collector, fault, rfl, rfl⟩
    | awaitingHeader => exact Or.inr ⟨by simp [phase], _, rfl, rfl⟩
    | finalized => exact Or.inr ⟨by simp [phase], _, rfl, rfl⟩
    | rejected => exact Or.inr ⟨by simp [phase], _, rfl, rfl⟩

/-- A pack that is set stays settled. -/
theorem PackSettled.perform (h : exchange.PackSettled) (context : SyncContext) (call : Call) :
    (exchange.perform context call).2.PackSettled := by
  cases exchange with
  | awaitingHeader =>
    cases call with
    | header element =>
      simp only [PushExchange.perform, header]
      cases hread : PushRequest.ofElement element with
      | ok request =>
        intro hpack
        rw [PushRequest.pack_of_ofElement hread] at hpack
        cases hpack
      | error e => trivial
    | payloadStart => trivial
    | payloadText text => trivial
    | payloadEnd => trivial
    | finish => trivial
  | awaitingPayload request collector fault =>
    cases call with
    | header element => exact h
    | payloadStart =>
      intro hpack
      simp [Collector.begin, h hpack]
    | payloadText text =>
      intro hpack
      simp [Collector.pushText, h hpack]
    | payloadEnd =>
      simp only [PushExchange.perform, payloadEnd]
      cases hphase : collector.phase with
      | collecting seen stored =>
        simp only [Collector.finish, hphase]
        cases Collector.outcome collector.limit seen stored <;> exact fun _ => rfl
      | idle => simpa [Collector.finish, hphase] using h
      | done => simpa [Collector.finish, hphase] using h
    | finish => trivial
  | finalized => cases call <;> trivial
  | rejected => cases call <;> trivial

/-- While the payload is awaited, a pack that is set is kept. -/
theorem PackSettled.pack_perform (h : exchange.PackSettled) (context : SyncContext) (call : Call)
    {request request' : PushRequest} {pack : List UInt8} (hbefore : exchange.request? = some request)
    (hafter : (exchange.perform context call).2.request? = some request')
    (hpack : request.pack = some pack) : request'.pack = some pack := by
  cases exchange with
  | awaitingHeader => cases hbefore
  | awaitingPayload request collector fault =>
    cases hbefore
    have hdone : collector.phase = .done := h (by rw [hpack]; rfl)
    cases call with
    | header element =>
      cases hafter
      exact hpack
    | payloadStart =>
      cases hafter
      exact hpack
    | payloadText text =>
      cases hafter
      exact hpack
    | payloadEnd =>
      simp only [PushExchange.perform, payloadEnd, Collector.finish, hdone, request?,
        Option.some.injEq] at hafter
      rw [← hafter]
      exact hpack
    | finish => cases hafter
  | finalized => cases hbefore
  | rejected => cases hbefore

variable {σ : Type} (answer : BackendProgram.Handler σ)

/-- The record of a call that is performed against a storage. -/
def record (context : SyncContext) (exchange : PushExchange) (call : Call) (storage : σ) :
    Performed :=
  ⟨call, exchange, ((exchange.perform context call).1.run answer storage).1,
    (exchange.perform context call).2⟩

/-- Whatever the storage replies, a call is lawful if the pack is settled. -/
theorem lawful_record (h : exchange.PackSettled) (context : SyncContext) (call : Call)
    (storage : σ) : (exchange.record answer context call storage).Lawful where
  moves := moves_perform context exchange call
  stays := fun hover => perform_of_over hover call
  response_iff := by
    rcases perform_cases context exchange call with
      ⟨request, collector, fault, rfl, rfl⟩ | ⟨hquiet, returned, hpure, hnone⟩
    · simp [record, perform, finish, Returned.ofFinish, Returned.response?, phase]
    · have hreturned : (exchange.record answer context call storage).returned = returned := by
        rw [record, hpure, BackendProgram.run_pure]
      rw [hreturned, hnone]
      exact ⟨(fun h => by cases h), fun h => absurd h hquiet⟩
  early_finish := by
    intro hcall hphase
    have hfinish : call = .finish := hcall
    subst hfinish
    cases exchange with
    | awaitingHeader => exact ⟨rfl, rfl⟩
    | awaitingPayload request collector fault => simp [record, phase] at hphase
    | finalized => simp [record, phase] at hphase
    | rejected => exact ⟨rfl, rfl⟩
  late_finish := by
    intro hcall hphase
    have hfinish : call = .finish := hcall
    subst hfinish
    cases exchange with
    | awaitingHeader => cases hphase
    | awaitingPayload request collector fault => cases hphase
    | finalized => exact ⟨rfl, rfl⟩
    | rejected => cases hphase
  late_header := by
    intro element hcall hphase
    have hheader : call = .header element := hcall
    subst hheader
    cases exchange with
    | awaitingHeader => exact absurd rfl hphase
    | awaitingPayload request collector fault => exact ⟨rfl, rfl⟩
    | finalized => exact ⟨rfl, rfl⟩
    | rejected => exact ⟨rfl, rfl⟩
  pack_kept := fun _ _ _ hbefore hafter hpack => h.pack_perform context call hbefore hafter hpack

/-- A call that answers or imports uses up an answer that was still to come. -/
theorem pending_perform (context : SyncContext) (exchange : PushExchange) (call : Call)
    (storage : σ) :
    let later := (exchange.perform context call).2.phase.pending
    (exchange.record answer context call storage).returned.response?.toList.length + later ≤
        exchange.phase.pending ∧
      (((exchange.perform context call).1.log answer storage).countP
        fun x => x.call.kind = .importPack) + later ≤ exchange.phase.pending := by
  intro later
  rcases perform_cases context exchange call with
    ⟨request, collector, fault, rfl, rfl⟩ | ⟨-, returned, hpure, hnone⟩
  · have himports := (request.finalized_finalize answer context fault storage).disciplined.imports_le
    have hover : later = 0 := rfl
    rw [hover]
    constructor
    · simp [record, perform, finish, Returned.ofFinish, Returned.response?, phase,
        PushPhase.pending]
    · simpa [perform, finish, BackendProgram.log_bind, phase, PushPhase.pending] using himports
  · have hle := (moves_perform context exchange call).pending_le
    constructor
    · simpa [record, hpure, hnone] using hle
    · simpa [hpure] using hle

/-- A run performs a call and then the others. -/
theorem run_performAll_cons (context : SyncContext) (exchange : PushExchange) (call : Call)
    (rest : List Call) (storage : σ) :
    let asked := ((exchange.perform context call).1.run answer storage).2
    let later := performAll context (exchange.perform context call).2 rest
    ((performAll context exchange (call :: rest)).run answer storage).1 =
        exchange.record answer context call storage :: (later.run answer asked).1 ∧
      (performAll context exchange (call :: rest)).log answer storage =
        (exchange.perform context call).1.log answer storage ++ later.log answer asked := by
  simp [performAll, record, BackendProgram.log_bind]

/-- Calls are performed as they come, each on the exchange that the one before it left, and each is
lawful. -/
theorem lawful_run_performAll (h : exchange.PackSettled) (context : SyncContext)
    (calls : List Call) (storage : σ) :
    let performed := ((performAll context exchange calls).run answer storage).1
    performed.map Performed.call = calls ∧ Linked exchange performed ∧
      ∀ x ∈ performed, x.Lawful := by
  induction calls generalizing exchange storage with
  | nil => exact ⟨rfl, trivial, by simp [performAll]⟩
  | cons call rest ih =>
    intro performed
    obtain ⟨hcalls, hlinked, hlawful⟩ := ih (h.perform context call)
      ((exchange.perform context call).1.run answer storage).2
    have hrun : performed = _ := (run_performAll_cons answer context exchange call rest storage).1
    rw [hrun]
    exact ⟨congrArg (call :: ·) hcalls, ⟨rfl, hlinked⟩,
      List.forall_mem_cons.mpr ⟨lawful_record answer h context call storage, hlawful⟩⟩

/-- Calls answer and import no more often than answers are still to come. -/
theorem pending_run_performAll (context : SyncContext) (exchange : PushExchange)
    (calls : List Call) (storage : σ) :
    let performed := ((performAll context exchange calls).run answer storage).1
    (performed.filterMap fun x => x.returned.response?).length ≤ exchange.phase.pending ∧
      (((performAll context exchange calls).log answer storage).countP
        fun x => x.call.kind = .importPack) ≤ exchange.phase.pending := by
  induction calls generalizing exchange storage with
  | nil => simp [performAll]
  | cons call rest ih =>
    intro performed
    obtain ⟨hresponses, himports⟩ := ih (exchange.perform context call).2
      ((exchange.perform context call).1.run answer storage).2
    obtain ⟨hresponse, himport⟩ := pending_perform answer context exchange call storage
    obtain ⟨hrun, hlog⟩ := run_performAll_cons answer context exchange call rest storage
    rw [show performed = _ from hrun, hlog, List.countP_append, List.filterMap_cons]
    refine ⟨?_, by omega⟩
    cases hwritten : (exchange.record answer context call storage).returned.response? with
    | none =>
      rw [hwritten] at hresponse
      simp only [Option.toList_none, List.length_nil] at hresponse
      simp only
      omega
    | some response =>
      rw [hwritten] at hresponse
      simp only [Option.toList_some, List.length_singleton] at hresponse
      simp only [List.length_cons]
      omega

/-- Calls to the exchange of a push, in any order and with any arguments, against a storage that
replies as it likes: each call is lawful, the one response is written by the first closing while the
payload is awaited, and at most one import is attempted. -/
theorem calls_keep_protocol (context : SyncContext) (calls : List Call) (storage : σ) :
    let program := performAll context .awaitingHeader calls
    let performed := (program.run answer storage).1
    performed.map Performed.call = calls ∧ Linked .awaitingHeader performed ∧
      (∀ x ∈ performed, x.Lawful) ∧
      (performed.filterMap fun x => x.returned.response?).length ≤ 1 ∧
      performed.filter (fun x => x.returned.response?.isSome) =
        (performed.find? Performed.closes).toList ∧
      ((program.log answer storage).countP fun x => x.call.kind = .importPack) ≤ 1 := by
  intro program performed
  have hsettled : PackSettled .awaitingHeader := trivial
  obtain ⟨hcalls, hlinked, hlawful⟩ := lawful_run_performAll answer hsettled context calls storage
  obtain ⟨hresponses, himports⟩ := pending_run_performAll answer context .awaitingHeader calls storage
  refine ⟨hcalls, hlinked, hlawful, hresponses, ?_, himports⟩
  have hsame : performed.filter (fun x => x.returned.response?.isSome) =
      performed.filter Performed.closes := by
    refine List.filter_congr fun x hx => ?_
    rw [Bool.eq_iff_iff, (hlawful x hx).response_iff, Performed.closes, decide_eq_true_iff]
  rw [List.length_filterMap_eq_countP, List.countP_eq_length_filter, hsame] at hresponses
  rw [hsame, ← List.head?_filter]
  cases hclosing : performed.filter Performed.closes with
  | nil => rfl
  | cons x rest =>
    rw [hclosing] at hresponses
    have hnil : rest = [] :=
      List.eq_nil_of_length_eq_zero (Nat.le_zero.mp (Nat.le_of_succ_le_succ hresponses))
    rw [hnil]
    rfl

end PushExchange

end BranchSync
