import BranchSync.Repository

/-!
# Programs over storage backends

A session never touches storage directly. It asks a backend seven kinds of question, and what
it does next may depend on the answer. A `BackendProgram` is such a computation: finished, or
a call together with a continuation for every possible reply. Since the calls are explicit,
one program can be run against stored accounts, against a backend that answers at will, or
one call at a time between the calls of others.
-/

namespace BranchSync

/-- A question to the storage behind an account. -/
inductive BackendCall where
  /-- Whether the account has a repository. -/
  | repository (user : String)
  /-- Whether the account has a mailbox. -/
  | mailbox (user : String)
  /-- The current tip of a branch. -/
  | tip (user branch : String)
  /-- The pack that leads from `base` to `target`. -/
  | exportPack (user branch : String) (base : TipRef) (target : Tip) (depth : Depth)
  /-- Apply a pack to a branch. -/
  | importPack (user branch : String) (pack : List UInt8) (start last : TipRef)
  /-- Record a tip in the mailbox; the reply tells whether it changed. -/
  | updateChannelTip (user branch tip : String)
  /-- Make the recorded tips of the mailbox visible. -/
  | commitMailbox (user : String)
  deriving DecidableEq

namespace BackendCall

/-- What a backend replies to a call. -/
abbrev Reply : BackendCall → Type
  | .repository _ => Bool
  | .mailbox _ => Bool
  | .tip _ _ => Except RepositoryError Tip
  | .exportPack _ _ _ _ _ => Except RepositoryError (List UInt8)
  | .importPack _ _ _ _ _ => Except RepositoryError Unit
  | .updateChannelTip _ _ _ => Except RepositoryError Bool
  | .commitMailbox _ => Except RepositoryError Unit

/-- The account that a call is about. -/
def user : BackendCall → String
  | .repository user => user
  | .mailbox user => user
  | .tip user _ => user
  | .exportPack user _ _ _ _ => user
  | .importPack user _ _ _ _ => user
  | .updateChannelTip user _ _ => user
  | .commitMailbox user => user

end BackendCall

/-- A computation that may call a backend. -/
inductive BackendProgram (α : Type) where
  | done (value : α)
  | call (request : BackendCall) (next : request.Reply → BackendProgram α)

namespace BackendProgram

variable {α β σ : Type}

/-- Make one call and return its reply. -/
def ask (request : BackendCall) : BackendProgram request.Reply :=
  .call request .done

/-- Continue a program with its result. -/
def andThen : BackendProgram α → (α → BackendProgram β) → BackendProgram β
  | .done value, f => f value
  | .call request next, f => .call request fun reply => (next reply).andThen f

/-- Programs are sequenced by running one and then the next. -/
instance : Monad BackendProgram where
  pure := .done
  bind := andThen

/-- Continuing with nothing more changes nothing. -/
theorem andThen_done (p : BackendProgram α) : p.andThen .done = p := by
  induction p with
  | done value => rfl
  | call request next ih =>
    change BackendProgram.call request (fun reply => (next reply).andThen .done) = _
    rw [funext ih]

/-- It does not matter how three programs in a row are grouped. -/
theorem andThen_assoc {γ : Type} (p : BackendProgram α) (f : α → BackendProgram β)
    (g : β → BackendProgram γ) :
    (p.andThen f).andThen g = p.andThen fun value => (f value).andThen g := by
  induction p with
  | done value => rfl
  | call request next ih =>
    change BackendProgram.call request (fun reply => ((next reply).andThen f).andThen g) = _
    rw [funext ih]
    rfl

/-- Sequencing obeys the laws of a monad. -/
instance : LawfulMonad BackendProgram :=
  LawfulMonad.mk' BackendProgram (fun p => andThen_done p) (fun _ _ => rfl)
    (fun p f g => andThen_assoc p f g)

/-- A sequence calls nothing exactly when neither of its parts does. -/
theorem bind_eq_pure_iff {p : BackendProgram α} {f : α → BackendProgram β} {value : β} :
    p >>= f = pure value ↔ ∃ first, p = pure first ∧ f first = pure value := by
  cases p with
  | done first =>
    constructor
    · intro h
      exact ⟨first, rfl, h⟩
    · intro h
      obtain ⟨first', hfirst, hrest⟩ := h
      cases hfirst
      exact hrest
  | call request next =>
    constructor
    · intro h
      cases h
    · intro h
      obtain ⟨first, hfirst, -⟩ := h
      cases hfirst

/-- A backend with state `σ`: a reply and a next state for every call. -/
abbrev Handler (σ : Type) := (request : BackendCall) → σ → request.Reply × σ

/-- Run a program, with every call answered by a handler. -/
def run (answer : Handler σ) : BackendProgram α → σ → α × σ
  | .done value, s => (value, s)
  | .call request next, s =>
    let (reply, s) := answer request s
    (next reply).run answer s

/-- Running a sequence runs its first part and hands result and state to the second. -/
theorem run_andThen (answer : Handler σ) (p : BackendProgram α) (f : α → BackendProgram β)
    (s : σ) :
    (p.andThen f).run answer s = (f (p.run answer s).1).run answer (p.run answer s).2 := by
  induction p generalizing s with
  | done value => rfl
  | call request next ih => exact ih _ _

/-- A returned value calls nothing. -/
@[simp] theorem run_pure (answer : Handler σ) (value : α) (s : σ) :
    (pure value : BackendProgram α).run answer s = (value, s) := rfl

/-- Running a sequence in monadic form. -/
@[simp] theorem run_bind (answer : Handler σ) (p : BackendProgram α)
    (f : α → BackendProgram β) (s : σ) :
    (p >>= f).run answer s = (f (p.run answer s).1).run answer (p.run answer s).2 :=
  run_andThen answer p f s

/-- Changing the result of a program changes nothing else. -/
@[simp] theorem run_map (answer : Handler σ) (f : α → β) (p : BackendProgram α) (s : σ) :
    (f <$> p).run answer s = (f (p.run answer s).1, (p.run answer s).2) := by
  rw [map_eq_pure_bind, run_bind, run_pure]

/-- A single call is answered by the handler. -/
@[simp] theorem run_ask (answer : Handler σ) (request : BackendCall) (s : σ) :
    (ask request).run answer s = answer request s := rfl

end BackendProgram

end BranchSync
