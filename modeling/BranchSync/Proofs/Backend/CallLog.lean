import BranchSync.Backend
import BranchSync.Branch

/-!
# The calls of a program

A program is run against a handler that answers every call as it likes, and differently each time.
The log of the run keeps the calls that were made, in order, each with the reply that it got.
-/

namespace BranchSync

/-- A call with the reply that it got. -/
structure Exchange where
  call : BackendCall
  reply : call.Reply

/-- What a call is for. -/
inductive CallKind where
  | repository
  | mailbox
  | tip
  | exportPack
  | importPack
  | updateChannelTip
  | commitMailbox
  deriving DecidableEq

/-- Whether calls of a kind only look at a repository. -/
def CallKind.reads : CallKind → Bool
  | .repository => true
  | .tip => true
  | .exportPack => true
  | .mailbox => false
  | .importPack => false
  | .updateChannelTip => false
  | .commitMailbox => false

namespace BackendCall

/-- The kind of a call. -/
def kind : BackendCall → CallKind
  | .repository _ => .repository
  | .mailbox _ => .mailbox
  | .tip _ _ => .tip
  | .exportPack _ _ _ _ _ => .exportPack
  | .importPack _ _ _ _ _ => .importPack
  | .updateChannelTip _ _ _ => .updateChannelTip
  | .commitMailbox _ => .commitMailbox

/-- The branch that a call names, if it names one. -/
def branch? : BackendCall → Option String
  | .repository _ => none
  | .mailbox _ => none
  | .tip _ branch => some branch
  | .exportPack _ branch _ _ _ => some branch
  | .importPack _ branch _ _ _ => some branch
  | .updateChannelTip _ branch _ => some branch
  | .commitMailbox _ => none

/-- A call about a branch, or about the account that the branch belongs to. -/
def Concerns (c : BackendCall) (target : BranchRef) : Prop :=
  c.user = target.user ∧ (c.branch? = none ∨ c.branch? = some target.branch)

end BackendCall

namespace BackendProgram

variable {α β σ : Type}

/-- The calls that a run makes, in order, with their replies. -/
def log (answer : Handler σ) : BackendProgram α → σ → List Exchange
  | .done _, _ => []
  | .call request next, s =>
    ⟨request, (answer request s).1⟩ ::
      (next (answer request s).1).log answer (answer request s).2

/-- A returned value calls nothing. -/
@[simp] theorem log_pure (answer : Handler σ) (value : α) (s : σ) :
    (pure value : BackendProgram α).log answer s = [] := rfl

/-- A single call is all that is logged. -/
@[simp] theorem log_ask (answer : Handler σ) (request : BackendCall) (s : σ) :
    (ask request).log answer s = [⟨request, (answer request s).1⟩] := rfl

/-- A sequence makes the calls of its first part and then those of its second part. -/
theorem log_bind (answer : Handler σ) (p : BackendProgram α) (f : α → BackendProgram β) (s : σ) :
    (p >>= f).log answer s =
      p.log answer s ++ (f (p.run answer s).1).log answer (p.run answer s).2 := by
  induction p generalizing s with
  | done value => rfl
  | call request next ih => exact congrArg (_ :: ·) (ih _ _)

/-- Changing the result of a program changes none of its calls. -/
@[simp] theorem log_map (answer : Handler σ) (f : α → β) (p : BackendProgram α) (s : σ) :
    (f <$> p).log answer s = p.log answer s := by
  rw [map_eq_pure_bind, log_bind, log_pure, List.append_nil]

/-- Every call that a program can make has a property, whatever the replies are. -/
def AllCalls (P : BackendCall → Prop) : BackendProgram α → Prop
  | .done _ => True
  | .call request next => P request ∧ ∀ reply, (next reply).AllCalls P

/-- A returned value calls nothing. -/
theorem allCalls_pure (P : BackendCall → Prop) (value : α) :
    (pure value : BackendProgram α).AllCalls P := trivial

/-- All calls of a sequence have a property if those of its parts do. -/
theorem allCalls_bind {P : BackendCall → Prop} {p : BackendProgram α} {f : α → BackendProgram β}
    (hp : p.AllCalls P) (hf : ∀ value, (f value).AllCalls P) : (p >>= f).AllCalls P := by
  induction p with
  | done value => exact hf value
  | call request next ih => exact ⟨hp.1, fun reply => ih reply (hp.2 reply)⟩

/-- A call and what comes after it have a property together. -/
theorem allCalls_ask_bind {P : BackendCall → Prop} {request : BackendCall}
    {f : request.Reply → BackendProgram β} (hp : P request) (hf : ∀ reply, (f reply).AllCalls P) :
    (ask request >>= f).AllCalls P := ⟨hp, hf⟩

/-- Calls with a property have every property that follows from it. -/
theorem AllCalls.mono {P Q : BackendCall → Prop} {p : BackendProgram α} (h : p.AllCalls P)
    (hPQ : ∀ c, P c → Q c) : p.AllCalls Q := by
  induction p with
  | done value => trivial
  | call request next ih => exact ⟨hPQ request h.1, fun reply => ih reply (h.2 reply)⟩

/-- What all calls of a program have in common, the calls that are logged have in common. -/
theorem AllCalls.of_mem_log {P : BackendCall → Prop} {p : BackendProgram α} (h : p.AllCalls P)
    {answer : Handler σ} {s : σ} {x : Exchange} (hx : x ∈ p.log answer s) : P x.call := by
  induction p generalizing s with
  | done value => cases hx
  | call request next ih =>
    rcases List.mem_cons.mp hx with rfl | hx
    · exact h.1
    · exact ih _ (h.2 _) hx

end BackendProgram

namespace Exchange

variable {front log : List Exchange}

/-- A call that does more than read is not among calls that only read. -/
theorem mem_of_mem_append_of_reads (hfront : ∀ x ∈ front, x.call.kind.reads = true) {x : Exchange}
    (hx : x ∈ front ++ log) (hkind : x.call.kind.reads = false) : x ∈ log := by
  rcases List.mem_append.mp hx with hx | hx
  · rw [hfront x hx] at hkind
    cases hkind
  · exact hx

/-- Without a call of a kind, their number stays below any bound. -/
theorem countP_le_of_forall_ne {kind : CallKind} (h : ∀ x ∈ log, x.call.kind ≠ kind) (n : Nat) :
    (log.countP fun x => x.call.kind = kind) ≤ n := by
  rw [List.countP_eq_zero.mpr fun x hx => by simpa using h x hx]
  exact Nat.zero_le n

/-- Calls that do more than read are as many with calls before them that only read. -/
theorem countP_append_of_reads (hfront : ∀ x ∈ front, x.call.kind.reads = true) {kind : CallKind}
    (hkind : kind.reads = false) :
    ((front ++ log).countP fun x => x.call.kind = kind) =
      log.countP fun x => x.call.kind = kind := by
  have hother : ∀ x ∈ front, x.call.kind ≠ kind := by
    intro x hx hsame
    rw [← hsame, hfront x hx] at hkind
    cases hkind
  rw [List.countP_append, Nat.le_zero.mp (countP_le_of_forall_ne hother 0), Nat.zero_add]

/-- Calls in a row of which the first does more than read do not begin among calls that only
read. -/
theorem infix_of_infix_append_of_reads (hfront : ∀ x ∈ front, x.call.kind.reads = true)
    {x : Exchange} {rest : List Exchange} (hkind : x.call.kind.reads = false)
    (h : x :: rest <:+: front ++ log) : x :: rest <:+: log := by
  induction front with
  | nil => exact h
  | cons y front ih =>
    rcases List.infix_cons_iff.mp h with hfirst | hwithin
    · have hsame : x = y := (List.cons_prefix_cons.mp hfirst).1
      rw [hsame, hfront y List.mem_cons_self] at hkind
      cases hkind
    · exact ih (fun z hz => hfront z (List.mem_cons_of_mem _ hz)) hwithin

end Exchange

end BranchSync
