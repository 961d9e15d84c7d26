import BranchSync.Proofs.Payload.Gathering
import BranchSync.Proofs.Payload.Transfer

/-!
# A collector under calls in any order

A collector waits, gathers and is done, and no call leads back. Before the first opening only an
opening has an effect, afterwards only text and the first closing do, and after that nothing does. So
what a closing yields depends on the text that arrived since the first opening and on nothing else:
not on how it was cut, nor on what came before. Two facts carry this, each by induction over the
calls: a phase is kept by the calls that do not end it, and a collector that gathers has gathered the
text of all calls since it was opened.

For text under a limit this needs that its octets fit a machine word. Where they do not, the count
starts again at zero, and a collector takes what is beyond its limit for text within it.
-/

namespace BranchSync.Collector

/-- A call to a collector. -/
inductive Call where
  | begin
  | text (piece : String)
  | finish
  deriving DecidableEq

/-- The piece of text that a call brings. -/
def Call.piece? : Call → Option String
  | .begin => none
  | .text piece => some piece
  | .finish => none

/-- The text that calls bring, all pieces together. -/
def textOf (calls : List Call) : String :=
  String.join (calls.filterMap Call.piece?)

/-- The piece of a call goes before the text of the calls that follow. -/
theorem textOf_cons (call : Call) (rest : List Call) :
    textOf (call :: rest) = call.piece?.getD "" ++ textOf rest := by
  unfold textOf
  cases hpiece : call.piece? with
  | none => rw [List.filterMap_cons_none hpiece, Option.getD_none, String.empty_append]
  | some piece => rw [List.filterMap_cons_some hpiece, String.join_cons, Option.getD_some]

/-- The collector after a call. -/
def perform (c : Collector) : Call → Collector
  | .begin => c.begin.2
  | .text piece => c.pushText piece
  | .finish => c.finish.2

/-- The collector after calls in order. -/
def performAll (c : Collector) (calls : List Call) : Collector :=
  calls.foldl perform c

/-- A first call is made before the others. -/
theorem performAll_cons (c : Collector) (call : Call) (rest : List Call) :
    c.performAll (call :: rest) = (c.perform call).performAll rest :=
  rfl

/-- Calls are made one after the other. -/
theorem performAll_append (c : Collector) (earlier later : List Call) :
    c.performAll (earlier ++ later) = (c.performAll earlier).performAll later :=
  List.foldl_append

/-- The text that a collector holds. -/
def buffered (c : Collector) : String :=
  match c.phase with
  | .collecting _ stored => stored
  | _ => ""

/-- The calls opened an element and have not closed it, and these are the calls since. -/
def Opened (calls during : List Call) : Prop :=
  ∃ before, calls = before ++ .begin :: during ∧ .begin ∉ before ∧ .finish ∉ during

/-- The calls opened an element and have closed it. -/
def Closed (calls : List Call) : Prop :=
  ∃ earlier during after, calls = earlier ++ .finish :: after ∧ Opened earlier during

/-- What the text of an element amounts to: it is too large as a whole, or is read as a whole. -/
def verdict (limit : Option UInt64) (text : String) : Except ProtocolError (List UInt8) :=
  match limit with
  | none => Payload.decode text
  | some max =>
    if text.utf8ByteSize ≤ max.toNat then Payload.decode text
    else .error (.payloadTooLarge text.utf8ByteSize max.toNat)

/-- The outcome of a text that was counted and stored as a whole is its verdict. -/
theorem outcome_eq_verdict (limit : Option UInt64) (text : String) :
    outcome limit text.utf8ByteSize text = verdict limit text := by
  cases limit with
  | none => rfl
  | some max =>
    by_cases hmax : text.utf8ByteSize ≤ max.toNat
    · rw [outcome, verdict, if_neg (Nat.not_lt.mpr hmax), if_pos hmax]
    · rw [outcome, verdict, if_pos (Nat.lt_of_not_le hmax), if_neg hmax]

variable {c : Collector} {calls during : List Call} {limit : Option UInt64}

/-- Either no element was opened, or one is open, or it was closed. -/
theorem opened_or_closed (calls : List Call) :
    .begin ∉ calls ∨ (∃ during, Opened calls during) ∨ Closed calls := by
  by_cases hbegin : .begin ∈ calls
  · obtain ⟨before, rest, rfl, hfirst⟩ := List.eq_append_cons_of_mem hbegin
    by_cases hfinish : .finish ∈ rest
    · obtain ⟨during, after, rfl, hduring⟩ := List.eq_append_cons_of_mem hfinish
      exact Or.inr (Or.inr ⟨before ++ .begin :: during, during, after, by simp,
        before, rfl, hfirst, hduring⟩)
    · exact Or.inr (Or.inl ⟨rest, before, rfl, hfirst, hfinish⟩)
  · exact Or.inl hbegin

/-- An element that is open was opened. -/
theorem Opened.begin_mem (h : Opened calls during) : .begin ∈ calls := by
  obtain ⟨before, rfl, -, -⟩ := h
  exact List.mem_append_right before List.mem_cons_self

/-- A collector takes up an element exactly if it waits for one. -/
theorem begin_eq_true_iff : c.begin.1 = true ↔ c.phase = .idle := by
  cases hphase : c.phase <;> simp [begin, hphase]

/-- A closing yields nothing exactly if no text is gathered. -/
theorem finish_eq_none_iff : c.finish.1 = none ↔ c.isCollecting = false := by
  cases hphase : c.phase <;> simp [finish, isCollecting, hphase]

/-- A collector that gathers has a count and a stored text. -/
theorem exists_phase_eq (h : c.isCollecting = true) :
    ∃ seen stored, c.phase = .collecting seen stored := by
  cases hphase : c.phase with
  | idle => simp [isCollecting, hphase] at h
  | collecting seen stored => exact ⟨seen, stored, rfl⟩
  | done => simp [isCollecting, hphase] at h

/-- A collector that is not gathering holds no text. -/
theorem buffered_of_not_collecting (h : c.isCollecting = false) : c.buffered = "" := by
  cases hphase : c.phase with
  | idle => simp [buffered, hphase]
  | collecting seen stored => simp [isCollecting, hphase] at h
  | done => simp [buffered, hphase]

/-- A collector that waits is moved by an opening only. -/
theorem perform_of_idle (h : c.phase = .idle) {call : Call} (hcall : call ≠ .begin) :
    c.perform call = c := by
  cases call with
  | begin => exact absurd rfl hcall
  | text piece => simp [perform, pushText, h]
  | finish => simp [perform, finish, h]

/-- A collector that is done is moved by nothing. -/
theorem perform_of_done (h : c.phase = .done) (call : Call) : c.perform call = c := by
  cases call with
  | begin => simp [perform, begin, h]
  | text piece => simp [perform, pushText, h]
  | finish => simp [perform, finish, h]

/-- A collector that gathers does not take up another element. -/
theorem perform_begin_of_collecting {seen : UInt64} {stored : String}
    (h : c.phase = .collecting seen stored) : c.perform .begin = c := by
  simp [perform, begin, h]

/-- A collector that gathers goes on until it is closed. -/
theorem isCollecting_perform (h : c.isCollecting = true) {call : Call} (hcall : call ≠ .finish) :
    (c.perform call).isCollecting = true := by
  obtain ⟨seen, stored, hphase⟩ := exists_phase_eq h
  cases call with
  | begin => rwa [perform_begin_of_collecting hphase]
  | text piece =>
    rw [perform, pushText_of_collecting hphase]
    rfl
  | finish => exact absurd rfl hcall

/-- While a collector gathers, text is all that counts. -/
theorem Gathers.perform {gathered : String} (h : c.Gathers gathered) {call : Call}
    (hcall : call ≠ .finish)
    (hcount : Countable UInt64 c.limit (gathered ++ call.piece?.getD "")) :
    (c.perform call).Gathers (gathered ++ call.piece?.getD "") := by
  cases call with
  | begin =>
    have hkeep : c.perform .begin = c := by
      obtain ⟨seen, stored, hphase, -⟩ := h
      exact perform_begin_of_collecting hphase
    rw [hkeep, Call.piece?, Option.getD_none, String.append_empty]
    exact h
  | text piece => exact h.pushText hcount
  | finish => exact absurd rfl hcall

/-- No call changes the limit. -/
theorem limit_perform (c : Collector) (call : Call) : (c.perform call).limit = c.limit := by
  cases call with
  | begin =>
    simp only [perform, begin]
    split <;> rfl
  | text piece => exact pushText_limit c piece
  | finish =>
    simp only [perform, finish]
    split <;> rfl

/-- No calls change the limit. -/
theorem limit_performAll (c : Collector) (calls : List Call) :
    (c.performAll calls).limit = c.limit := by
  induction calls generalizing c with
  | nil => rfl
  | cons call rest ih => exact (ih (c.perform call)).trans (limit_perform c call)

/-- A collector that waits keeps waiting while nothing is opened. -/
theorem performAll_of_idle (h : c.phase = .idle) (hcalls : .begin ∉ calls) :
    c.performAll calls = c := by
  induction calls with
  | nil => rfl
  | cons call rest ih =>
    obtain ⟨hcall, hrest⟩ := not_or.mp (mt List.mem_cons.mpr hcalls)
    rw [performAll_cons, perform_of_idle h (Ne.symm hcall)]
    exact ih hrest

/-- A collector that is done stays as it is. -/
theorem performAll_of_done (h : c.phase = .done) (calls : List Call) : c.performAll calls = c := by
  induction calls with
  | nil => rfl
  | cons call rest ih =>
    rw [performAll_cons, perform_of_done h]
    exact ih

/-- A collector that gathers still does after calls that do not close it. -/
theorem isCollecting_performAll (h : c.isCollecting = true) (hcalls : .finish ∉ calls) :
    (c.performAll calls).isCollecting = true := by
  induction calls generalizing c with
  | nil => exact h
  | cons call rest ih =>
    obtain ⟨hcall, hrest⟩ := not_or.mp (mt List.mem_cons.mpr hcalls)
    exact ih (isCollecting_perform h (Ne.symm hcall)) hrest

/-- A collector that gathers has, as long as nothing closes it, gathered the text of all calls. -/
theorem Gathers.performAll {gathered : String} (h : c.Gathers gathered) (hcalls : .finish ∉ calls)
    (hcount : Countable UInt64 c.limit (gathered ++ textOf calls)) :
    (c.performAll calls).Gathers (gathered ++ textOf calls) := by
  induction calls generalizing c gathered with
  | nil =>
    rw [textOf, List.filterMap_nil, String.join_nil, String.append_empty]
    exact h
  | cons call rest ih =>
    obtain ⟨hcall, hrest⟩ := not_or.mp (mt List.mem_cons.mpr hcalls)
    rw [textOf_cons, ← String.append_assoc] at hcount ⊢
    refine ih (h.perform (Ne.symm hcall) hcount.of_append) hrest ?_
    rw [limit_perform]
    exact hcount

/-- What came before the opening leaves no trace. -/
theorem Opened.performAll_eq (h : Opened calls during) (limit : Option UInt64) :
    (new limit).performAll calls = (new limit : Collector).begin.2.performAll during := by
  obtain ⟨before, rfl, hbefore, -⟩ := h
  have hwaits : (new limit).performAll before = new limit := performAll_of_idle rfl hbefore
  rw [performAll_append, performAll_cons, hwaits]
  rfl

/-- While an element is open, text is gathered. -/
theorem Opened.isCollecting (h : Opened calls during) (limit : Option UInt64) :
    ((new limit).performAll calls).isCollecting = true := by
  rw [h.performAll_eq]
  obtain ⟨before, -, -, hduring⟩ := h
  exact isCollecting_performAll rfl hduring

/-- While an element is open, the text that was gathered is the text since the opening. -/
theorem Opened.gathers (h : Opened calls during)
    (hcount : Countable UInt64 limit (textOf during)) :
    ((new limit).performAll calls).Gathers (textOf during) := by
  rw [h.performAll_eq]
  obtain ⟨before, -, -, hduring⟩ := h
  rw [← String.empty_append (s := textOf during)] at hcount ⊢
  exact (gathers_begin limit).performAll hduring hcount

/-- When an element was closed, the collector is done. -/
theorem Closed.phase_eq (h : Closed calls) (limit : Option UInt64) :
    ((new limit).performAll calls).phase = .done := by
  obtain ⟨earlier, during, after, rfl, hopened⟩ := h
  have hdone : (((new limit).performAll earlier).perform .finish).phase = .done := by
    obtain ⟨seen, stored, hphase⟩ := exists_phase_eq (hopened.isCollecting limit)
    simp [perform, finish, hphase]
  rw [performAll_append, performAll_cons, performAll_of_done hdone]
  exact hdone

/-- A collector that gathers holds no more text than its limit. -/
theorem Gathers.buffered_le {gathered : String} (h : c.Gathers gathered) {max : UInt64}
    (hmax : c.limit = some max) : c.buffered.utf8ByteSize ≤ max.toNat := by
  obtain ⟨seen, stored, hphase, -, -, hwithin⟩ := h
  rw [hmax] at hwithin
  rw [buffered, hphase]
  exact of_decide_eq_true hwithin

/-- A collector waits exactly if no element was opened. -/
theorem phase_eq_idle_iff (limit : Option UInt64) (calls : List Call) :
    ((new limit : Collector).performAll calls).phase = .idle ↔ .begin ∉ calls := by
  rcases opened_or_closed calls with hbegin | ⟨during, hopened⟩ | hclosed
  · rw [performAll_of_idle rfl hbegin]
    exact iff_of_true rfl hbegin
  · refine iff_of_false (fun hidle => ?_) (not_not_intro hopened.begin_mem)
    obtain ⟨seen, stored, hphase⟩ := exists_phase_eq (hopened.isCollecting limit)
    rw [hidle] at hphase
    cases hphase
  · have hdone := hclosed.phase_eq limit
    obtain ⟨earlier, during, after, rfl, hopened⟩ := hclosed
    refine iff_of_false (fun hidle => ?_) (not_not_intro (List.mem_append_left _ hopened.begin_mem))
    rw [hdone] at hidle
    cases hidle

/-- A collector gathers exactly if an element is open. -/
theorem isCollecting_iff (limit : Option UInt64) (calls : List Call) :
    ((new limit : Collector).performAll calls).isCollecting = true ↔
      ∃ during, Opened calls during := by
  constructor
  · intro hgathers
    rcases opened_or_closed calls with hbegin | hopened | hclosed
    · rw [performAll_of_idle rfl hbegin] at hgathers
      cases hgathers
    · exact hopened
    · rw [isCollecting, hclosed.phase_eq limit] at hgathers
      cases hgathers
  · rintro ⟨during, hopened⟩
    exact hopened.isCollecting limit

/-- Whatever calls were made to a collector, in any order: it takes up an element exactly when none
was opened before; a closing yields something exactly when an element is open; and otherwise the
collector holds no text, and text has no effect. While an element is open, and if its text so far is
not too long to be counted, the text that is held is within the limit, and a closing yields the
verdict on all the text since the opening. -/
theorem verdict_independent_of_chunks (limit : Option UInt64) (calls : List Call) :
    let c := (new limit : Collector).performAll calls
    (c.begin.1 = true ↔ .begin ∉ calls) ∧
      (c.finish.1 = none ↔ ¬ ∃ during, Opened calls during) ∧
      ((¬ ∃ during, Opened calls during) → c.buffered = "" ∧ ∀ piece, c.pushText piece = c) ∧
      ∀ during, Opened calls during →
        limit = none ∨ (textOf during).utf8ByteSize < UInt64.size →
        (∀ max ∈ limit, c.buffered.utf8ByteSize ≤ max.toNat) ∧
          c.finish.1 = some (verdict limit (textOf during)) := by
  intro c
  have hlimit : c.limit = limit := limit_performAll _ calls
  have hdrops (hclosed : ¬ ∃ during, Opened calls during) : c.isCollecting = false :=
    Bool.eq_false_iff.mpr (mt (isCollecting_iff limit calls).mp hclosed)
  refine ⟨begin_eq_true_iff.trans (phase_eq_idle_iff limit calls), ?_, ?_, ?_⟩
  · rw [finish_eq_none_iff, ← isCollecting_iff limit, Bool.not_eq_true]
  · intro hclosed
    exact ⟨buffered_of_not_collecting (hdrops hclosed), pushText_of_not_collecting (hdrops hclosed)⟩
  · intro during hopened hcount
    have hgathers := hopened.gathers hcount
    refine ⟨fun max hmax => hgathers.buffered_le (hlimit.trans hmax), ?_⟩
    rw [hgathers.finish, limit_performAll]
    exact congrArg some (outcome_eq_verdict limit (textOf during))

/-- A text that was cut in two after another one was dropped, with an opening in between that has no
effect, is too large as a whole. -/
theorem cut_text_too_large :
    let calls : List Call := [.text "AAAA", .begin, .text "aGVs", .begin, .text "bG8="]
    let during : List Call := [.text "aGVs", .begin, .text "bG8="]
    Opened calls during ∧ (textOf during).utf8ByteSize < UInt64.size ∧
      ((new (some 4) : Collector).performAll calls).finish.1 =
        some (.error (.payloadTooLarge 8 4)) := by
  intro calls during
  have hopened : Opened calls during := ⟨[.text "AAAA"], rfl, by decide, by decide⟩
  have hcount : (textOf during).utf8ByteSize < UInt64.size := by decide
  obtain ⟨-, -, -, hverdict⟩ := verdict_independent_of_chunks (some 4) calls
  exact ⟨hopened, hcount, (hverdict during hopened (.inr hcount)).2⟩

/-! ### Where the count overflows -/

/-- A call that is repeated once more is made last. -/
theorem performAll_replicate_succ (c : Collector) (n : Nat) (call : Call) :
    c.performAll (.begin :: List.replicate (n + 1) call) =
      (c.performAll (.begin :: List.replicate n call)).perform call := by
  rw [List.replicate_succ', ← List.cons_append, performAll_append]
  rfl

/-- Repeated text has the size of its pieces together. -/
theorem utf8ByteSize_textOf_replicate (n : Nat) (piece : String) :
    (textOf (List.replicate n (.text piece))).utf8ByteSize = n * piece.utf8ByteSize := by
  induction n with
  | zero => rw [Nat.zero_mul]; rfl
  | succ n ih =>
    rw [List.replicate_succ, textOf_cons, String.utf8ByteSize_append, ih, Call.piece?,
      Option.getD_some, Nat.succ_mul, Nat.add_comm]

/-- A count in a machine word is the number of octets up to multiples of the size of the word. -/
theorem phase_perform_text {size : Nat} {stored : String}
    (h : c.phase = .collecting (.ofNat size) stored) (piece : String) :
    (c.perform (.text piece)).phase = .collecting (.ofNat (size + piece.utf8ByteSize))
      (if admits c.limit ((size + piece.utf8ByteSize) % UInt64.size) = true
        then stored ++ piece else stored) := by
  have hcount : OctetCount.add (.ofNat size) piece.utf8ByteSize =
      UInt64.ofNat (size + piece.utf8ByteSize) := (UInt64.ofNat_add size _).symm
  have hshown : OctetCount.toNat (UInt64.ofNat (size + piece.utf8ByteSize)) =
      (size + piece.utf8ByteSize) % UInt64.size := UInt64.toNat_ofNat'
  rw [perform, pushText_of_collecting h, hcount, hshown]

/-- Pieces that are too large one by one are counted and not stored, while the count is exact. -/
theorem phase_of_large_pieces {max : UInt64} {piece : String}
    (hlarge : max.toNat < piece.utf8ByteSize) {n : Nat}
    (hfits : n * piece.utf8ByteSize < UInt64.size) :
    ((new (some max)).performAll (.begin :: List.replicate n (.text piece))).phase =
      .collecting (.ofNat (n * piece.utf8ByteSize)) "" := by
  induction n with
  | zero =>
    rw [Nat.zero_mul]
    rfl
  | succ n ih =>
    rw [Nat.succ_mul] at hfits ⊢
    have hphase := ih (by omega)
    have hfull : ¬ admits (some max) (n * piece.utf8ByteSize + piece.utf8ByteSize) = true := by
      simp only [admits, decide_eq_true_eq]
      omega
    rw [performAll_replicate_succ, phase_perform_text hphase,
      limit_performAll, Nat.mod_eq_of_lt hfits]
    exact congrArg _ (if_neg hfull)

/-- The piece with which the count overflows to zero is stored, whatever its size, and nothing of the
pieces before it is. -/
theorem phase_of_overflow {max : UInt64} {piece : String}
    (hlarge : max.toNat < piece.utf8ByteSize) {n : Nat}
    (hfull : n * piece.utf8ByteSize = UInt64.size) :
    ((new (some max)).performAll (.begin :: List.replicate n (.text piece))).phase =
      .collecting 0 piece := by
  cases n with
  | zero => simp at hfull
  | succ n =>
    rw [Nat.succ_mul] at hfull
    have hphase := phase_of_large_pieces hlarge (n := n) (by omega)
    have hlimit : (new (some max) : Collector).limit = some max := rfl
    -- the last piece brings the count to zero, and every limit admits that
    have hroom : admits (some max) 0 = true := decide_eq_true (Nat.zero_le max.toNat)
    rw [performAll_replicate_succ, phase_perform_text hphase,
      limit_performAll, hfull, Nat.mod_self, hlimit, if_pos hroom, String.empty_append]
    rfl

/-- When the text of a pack that is too large arrives as often as it takes for the count to overflow,
the collector holds it in spite of the limit, and reads it as the pack. -/
theorem overflow_accepted {max : UInt64} {pack : List UInt8}
    (hlarge : max.toNat < (Payload.encode pack).utf8ByteSize) {n : Nat}
    (hfull : n * (Payload.encode pack).utf8ByteSize = UInt64.size) :
    let during : List Call := List.replicate n (.text (Payload.encode pack))
    let c := (new (some max) : Collector).performAll (.begin :: during)
    Opened (.begin :: during) during ∧ (textOf during).utf8ByteSize = UInt64.size ∧
      c.buffered = Payload.encode pack ∧ c.finish.1 = some (.ok pack) := by
  intro during c
  have hphase : c.phase = .collecting 0 (Payload.encode pack) := phase_of_overflow hlarge hfull
  have hlimit : c.limit = some max := limit_performAll _ _
  have hread : outcome (some max) 0 (Payload.encode pack) = .ok pack := by
    simp [outcome, Payload.decode_encode]
  refine ⟨⟨[], rfl, List.not_mem_nil, fun hmem => ?_⟩, ?_, ?_, ?_⟩
  · cases List.eq_of_mem_replicate hmem
  · rw [utf8ByteSize_textOf_replicate, hfull]
  · rw [buffered, hphase]
  · rw [finish, hphase, hlimit]
    exact congrArg some hread

/-- A second element is opened in vain, so the closing after that opening yields nothing, though text
came in between. And when a piece of a gibioctet arrives as often as it takes for the count to
overflow, a collector with a limit of four octets holds a gibioctet, and reads it as a pack. -/
theorem second_element_unserved_and_overflow_accepted :
    ((new none : Collector).performAll
        [.begin, .text "aGk=", .finish, .begin, .text "bG8="]).finish.1 = none ∧
      let pack : List UInt8 := List.replicate 805306368 0
      let during : List Call := List.replicate 17179869184 (.text (Payload.encode pack))
      let c := (new (some 4) : Collector).performAll (.begin :: during)
      Opened (.begin :: during) during ∧ (textOf during).utf8ByteSize = UInt64.size ∧
        c.buffered.utf8ByteSize = 1073741824 ∧ c.finish.1 = some (.ok pack) := by
  have hsize : (Payload.encode (List.replicate 805306368 0)).utf8ByteSize = 1073741824 := by
    rw [Payload.utf8ByteSize_encode, List.length_replicate]
  have hlarge : (4 : UInt64).toNat <
      (Payload.encode (List.replicate 805306368 0)).utf8ByteSize := by
    rw [hsize]
    decide
  have hfull : 17179869184 *
      (Payload.encode (List.replicate 805306368 0)).utf8ByteSize = UInt64.size := by
    rw [hsize]
  obtain ⟨hopened, htext, hbuffered, hread⟩ := overflow_accepted hlarge hfull
  exact ⟨rfl, hopened, htext, (congrArg String.utf8ByteSize hbuffered).trans hsize, hread⟩

end BranchSync.Collector
