import ChunkedTransfer.Proofs.Buffer
import ChunkedTransfer.Transport.Basic

/-!
# Traces of a source

Whatever is done with a source comes down to a few small actions: its data is moved to the front of the storage, a
buffer that was used up is cleared, the transport is read once, bytes are taken from the front of the data, and
notes are taken. A trace is a row of such actions with their events. An invariant of the actions holds along every
trace, and thus along all operations (`trace_refill`, `trace_replenish`, `trace_read`). What concerns the transport
alone holds along the row of its reads (`Trace.reads`).
-/

namespace ChunkedTransfer

namespace Event

@[simp] theorem received_logged (r : Record) : (logged r).received = [] := rfl

@[simp] theorem consumed_logged (r : Record) : (logged r).consumed = [] := rfl

@[simp] theorem received_asked (room : Nat) (r : Reply) : (asked room r).received = r.bytes := rfl

@[simp] theorem consumed_asked (room : Nat) (r : Reply) : (asked room r).consumed = [] := rfl

@[simp] theorem received_taken (bs : Bytes) : (taken bs).received = [] := rfl

@[simp] theorem consumed_taken (bs : Bytes) : (taken bs).consumed = bs := rfl

@[simp] theorem received_completed : completed.received = [] := rfl

@[simp] theorem consumed_completed : completed.consumed = [] := rfl

/-- The answer of the transport in an event. -/
def reply? : Event → Option Reply
  | asked _ reply => some reply
  | _ => none

end Event

/-- The bytes that the transport handed over. -/
def received (es : List Event) : Bytes := es.flatMap Event.received

/-- The bytes that were taken out of the buffer. -/
def consumed (es : List Event) : Bytes := es.flatMap Event.consumed

@[simp] theorem received_nil : received [] = [] := rfl

@[simp] theorem received_cons (e : Event) (es : List Event) : received (e :: es) = e.received ++ received es := rfl

@[simp] theorem received_append (es es' : List Event) : received (es ++ es') = received es ++ received es' :=
  List.flatMap_append

@[simp] theorem consumed_nil : consumed [] = [] := rfl

@[simp] theorem consumed_cons (e : Event) (es : List Event) : consumed (e :: es) = e.consumed ++ consumed es := rfl

@[simp] theorem consumed_append (es es' : List Event) : consumed (es ++ es') = consumed es ++ consumed es' :=
  List.flatMap_append

/-- The answers of the transport. -/
def replies (es : List Event) : List Reply := es.filterMap Event.reply?

@[simp] theorem replies_nil : replies [] = [] := rfl

@[simp] theorem replies_append (es es' : List Event) : replies (es ++ es') = replies es ++ replies es' :=
  List.filterMap_append

@[simp] theorem replies_logged (r : Record) : replies [.logged r] = [] := rfl

@[simp] theorem replies_taken (bs : Bytes) : replies [.taken bs] = [] := rfl

@[simp] theorem replies_asked (room : Nat) (rs : List Reply) : replies (rs.map (Event.asked room)) = rs := by
  induction rs with
  | nil => rfl
  | cons r rs ih => simpa [replies, Event.reply?] using ih

/-- The answer that the transport gave last. -/
def lastReply (es : List Event) : Option Reply := (replies es).getLast?

theorem lastReply_append {es es' : List Event} {r : Reply} (h : lastReply es' = some r) :
    lastReply (es ++ es') = some r := by
  rw [lastReply, replies_append, List.getLast?_append, ← lastReply, h]
  rfl

theorem lastReply_append_of_replies {es es' : List Event} (h : replies es' = []) :
    lastReply (es ++ es') = lastReply es := by
  rw [lastReply, replies_append, h, List.append_nil, lastReply]

/-- What was handed over is what the answers of the transport hold. -/
theorem received_eq (es : List Event) : received es = (replies es).flatMap Reply.bytes := by
  induction es with
  | nil => rfl
  | cons e es ih =>
    rw [received_cons, ih]
    cases e <;> rfl

/-! ### Bytes in outcomes -/

namespace Outcome

variable {σ ρ α β : Type}

/-- The bytes in a result, as they are found in a value. A fault has none. -/
def bytesOf (f : α → Bytes) (r : Outcome σ α) : Bytes :=
  match r.result with
  | .ok a => f a
  | .error _ => []

theorem bytesOf_of_ok {r : Outcome σ α} {a : α} (h : r.result = .ok a) (f : α → Bytes) : r.bytesOf f = f a := by
  rw [bytesOf, h]

theorem bytesOf_of_error {r : Outcome σ α} {e : Fault} (h : r.result = .error e) (f : α → Bytes) :
    r.bytesOf f = [] := by
  rw [bytesOf, h]

theorem bytesOf_map (f : β → Bytes) (g : α → β) (r : Outcome σ α) : (r.map g).bytesOf f = r.bytesOf (f ∘ g) := by
  unfold bytesOf map
  cases r.result <;> rfl

theorem bytesOf_mapState (f : α → Bytes) (g : σ → ρ) (r : Outcome σ α) : (r.mapState g).bytesOf f = r.bytesOf f := rfl

/-- Values without bytes. -/
theorem bytesOf_eq_nil {f : α → Bytes} (h : ∀ a, f a = []) (r : Outcome σ α) : r.bytesOf f = [] := by
  unfold bytesOf
  cases r.result with
  | ok a => exact h a
  | error e => rfl

end Outcome

/-! ### Reads of a transport -/

namespace Transport

variable {τ : Type} [Transport τ]

/-- Reads of a transport in a row, with the answers to them. -/
inductive Reads : τ → List Reply → τ → Prop
  | nil (t : τ) : Reads t [] t
  | cons {t t' : τ} {rs : List Reply} (room : Nat) (h : Reads (read t room).2 rs t') :
      Reads t ((read t room).1 :: rs) t'

private theorem Reads.trans {t t' t'' : τ} {rs rs' : List Reply} (h : Reads t rs t') (h' : Reads t' rs' t'') :
    Reads t (rs ++ rs') t'' := by
  induction h with
  | nil t => exact h'
  | cons room _ ih => exact .cons room (ih h')

theorem reads_poll (t : τ) (room : Nat) : Reads t (poll t room).replies (poll t room).transport := by
  fun_induction poll t room with
  | case1 t r h p ih => exact .cons room ih
  | case2 t r h => exact .cons room (.nil _)

/-- What holds of all answers that a transport can give holds of those that it gave. -/
theorem Reads.forall_replies {P : Reply → Prop} (hP : ∀ (t : τ) room, P (read t room).1) {t t' : τ} {rs : List Reply}
    (h : Reads t rs t') : ∀ r ∈ rs, P r := by
  induction h with
  | nil t => simp
  | cons room _ ih => exact List.forall_mem_cons.2 ⟨hP _ room, ih⟩

end Transport

namespace Source

variable {τ α β : Type}

/-! ### What the small actions leave as it is -/

@[simp] theorem data_recycle (s : Source τ) : s.recycle.buffer.data = s.buffer.data := by
  unfold recycle
  split <;> simp

@[simp] theorem capacity_recycle (s : Source τ) : s.recycle.buffer.capacity = s.buffer.capacity := by
  unfold recycle
  split <;> simp

private theorem recycle_eq (s : Source τ) : s.recycle = { s with buffer := s.recycle.buffer } := by
  unfold recycle
  split <;> rfl

@[simp] theorem flag_recycle (s : Source τ) : s.recycle.flag = s.flag := by rw [recycle_eq]

@[simp] theorem transport_recycle (s : Source τ) : s.recycle.transport = s.transport := by rw [recycle_eq]

@[simp] theorem exhausted_recycle (s : Source τ) : s.recycle.exhausted = s.exhausted := by rw [recycle_eq]

@[simp] theorem announced_recycle (s : Source τ) : s.recycle.announced = s.announced := by rw [recycle_eq]

private theorem noteUsedUp_eq (s : Source τ) : s.noteUsedUp = { s with flag := s.noteUsedUp.flag } := by
  unfold noteUsedUp
  split <;> rfl

@[simp] theorem buffer_noteUsedUp (s : Source τ) : s.noteUsedUp.buffer = s.buffer := by rw [noteUsedUp_eq]

@[simp] theorem transport_noteUsedUp (s : Source τ) : s.noteUsedUp.transport = s.transport := by rw [noteUsedUp_eq]

@[simp] theorem exhausted_noteUsedUp (s : Source τ) : s.noteUsedUp.exhausted = s.exhausted := by rw [noteUsedUp_eq]

@[simp] theorem announced_noteUsedUp (s : Source τ) : s.noteUsedUp.announced = s.announced := by rw [noteUsedUp_eq]

private theorem report_eq (s : Source τ) (result : Except Fault (Progress Nat)) :
    (s.report result).1 = { s with announced := (s.report result).1.announced } := by
  unfold report
  split
  · split <;> rfl
  · rfl
  · rfl

@[simp] theorem buffer_report (s : Source τ) (result : Except Fault (Progress Nat)) :
    (s.report result).1.buffer = s.buffer := by rw [report_eq]

@[simp] theorem flag_report (s : Source τ) (result : Except Fault (Progress Nat)) :
    (s.report result).1.flag = s.flag := by rw [report_eq]

@[simp] theorem transport_report (s : Source τ) (result : Except Fault (Progress Nat)) :
    (s.report result).1.transport = s.transport := by rw [report_eq]

@[simp] theorem exhausted_report (s : Source τ) (result : Except Fault (Progress Nat)) :
    (s.report result).1.exhausted = s.exhausted := by rw [report_eq]

@[simp] theorem received_report (s : Source τ) (result : Except Fault (Progress Nat)) :
    received (s.report result).2 = [] := by
  unfold report
  split
  · split <;> simp
  · simp
  · simp

@[simp] theorem consumed_report (s : Source τ) (result : Except Fault (Progress Nat)) :
    consumed (s.report result).2 = [] := by
  unfold Source.report
  split
  · split <;> simp
  · simp
  · simp

@[simp] theorem replies_report (s : Source τ) (result : Except Fault (Progress Nat)) :
    replies (s.report result).2 = [] := by
  unfold report
  split
  · split <;> rfl
  · rfl
  · rfl

/-! ### Traces -/

variable [Transport τ]

/-- A row of small actions on a source, with the events of all of them. -/
inductive Trace : Source τ → List Event → Source τ → Prop
  | refl (s : Source τ) : Trace s [] s
  | trans {s s' s'' : Source τ} {es es' : List Event} (h : Trace s es s') (h' : Trace s' es' s'') :
      Trace s (es ++ es') s''
  /-- The data is moved to the front of the storage. -/
  | recycle (s : Source τ) : Trace s [] s.recycle
  /-- The buffer is cleared. This is done only when it is used up. -/
  | clear {s : Source τ} (h : s.available = 0) : Trace s [] { s with flag := .filling, buffer := s.buffer.clear }
  /-- The transport is read. This is done only when there is room, and not after its end. -/
  | receive {s : Source τ} (hx : s.exhausted = false) (hr : 0 < s.buffer.space) :
      Trace s s.receive.events s.receive.state
  /-- Bytes are taken from the front of the data. -/
  | take (s : Source τ) (n : Nat) :
      Trace s [.taken (s.buffer.read n).1] (noteUsedUp { s with buffer := (s.buffer.read n).2 })
  | noteUsedUp (s : Source τ) : Trace s [] s.noteUsedUp
  | markDraining (s : Source τ) : Trace s [] { s with flag := .draining }
  | report (s : Source τ) (result : Except Fault (Progress Nat)) : Trace s (s.report result).2 (s.report result).1
  | log (s : Source τ) (r : Record) : Trace s [.logged r] s

private theorem Trace.andThen {s : Source τ} {r : Outcome (Source τ) α} {f : α → Source τ → Outcome (Source τ) β}
    (h : Trace s r.events r.state)
    (hf : ∀ a, r.result = .ok a → Trace r.state (f a r.state).events (f a r.state).state) :
    Trace s (r.andThen f).events (r.andThen f).state := by
  cases hr : r.result with
  | ok a =>
    rw [Outcome.andThen_of_ok hr]
    exact h.trans (hf a hr)
  | error e =>
    rw [Outcome.andThen_of_error hr]
    exact h

theorem trace_refill (s : Source τ) : Trace s s.refill.events s.refill.state := by
  unfold refill
  split
  · exact .refl s
  · rename_i hx
    split
    · exact .refl s
    · split
      · exact .recycle s
      · rename_i hr
        have hx' : s.recycle.exhausted = false := by simpa using hx
        exact (Trace.recycle s).trans (.receive hx' (Nat.pos_of_ne_zero hr))

theorem trace_replenish (s : Source τ) : Trace s s.replenish.events s.replenish.state := by
  unfold replenish
  split
  · exact .refl s
  · rename_i ha
    have hc := Trace.clear (s := s) (by omega)
    exact .andThen (hc.trans (trace_refill _)) fun _ _ => .refl _

theorem trace_read (s : Source τ) (room : Nat) : Trace s (s.read room).events (s.read room).state := by
  unfold read
  split
  · exact .refl s
  · refine .andThen s.trace_replenish fun n _ => ?_
    split
    · exact .refl _
    · exact .take _ room

@[simp] theorem replies_receive (s : Source τ) :
    replies s.receive.events = (Transport.poll s.transport s.buffer.space).replies := by
  unfold receive
  simp only
  split <;> simp

theorem transport_receive (s : Source τ) :
    s.receive.state.transport = (Transport.poll s.transport s.buffer.space).transport := by
  unfold receive
  simp only
  split <;> rfl

/-- A trace uses the transport for nothing but the reads whose answers are among its events. -/
theorem Trace.reads {s s' : Source τ} {es : List Event} (h : Trace s es s') :
    Transport.Reads s.transport (replies es) s'.transport := by
  induction h with
  | refl s => exact .nil _
  | trans _ _ ih ih' =>
    rw [replies_append]
    exact ih.trans ih'
  | recycle s =>
    rw [transport_recycle]
    exact .nil _
  | clear => exact .nil _
  | receive =>
    rw [replies_receive, transport_receive]
    exact Transport.reads_poll _ _
  | take s n =>
    rw [transport_noteUsedUp]
    exact .nil _
  | noteUsedUp s =>
    rw [transport_noteUsedUp]
    exact .nil _
  | markDraining s => exact .nil _
  | report s result =>
    rw [replies_report, transport_report]
    exact .nil _
  | log s r => exact .nil _

/-! ### What is taken while a source is refilled -/

@[simp] theorem consumed_receive (s : Source τ) : consumed s.receive.events = [] := by
  have h (room : Nat) (rs : List Reply) : consumed (rs.map (Event.asked room)) = [] := by
    induction rs with
    | nil => rfl
    | cons r rs ih => simpa using ih
  unfold receive
  simp only
  split <;> simp [h]

@[simp] theorem consumed_refill (s : Source τ) : consumed s.refill.events = [] := by
  unfold refill
  repeat' split
  all_goals simp

@[simp] theorem consumed_replenish (s : Source τ) : consumed s.replenish.events = [] := by
  unfold replenish Outcome.andThen
  split
  · simp
  · split <;> simp

/-- What a read of a source takes is what it gives to its caller. -/
theorem consumed_read (s : Source τ) (room : Nat) : consumed (s.read room).events = (s.read room).bytesOf id := by
  unfold read
  split
  · rfl
  · cases hr : s.replenish.result with
    | error f => simp [Outcome.andThen_of_error hr, Outcome.bytesOf]
    | ok n =>
      rw [Outcome.andThen_of_ok hr]
      split <;> simp [Outcome.bytesOf]

theorem length_read_le {s : Source τ} {room : Nat} {bs : Bytes} (h : (s.read room).result = .ok bs) :
    bs.length ≤ room := by
  unfold read at h
  split at h
  · simp only [Except.ok.injEq] at h
    simp [← h]
  · cases hr : s.replenish.result with
    | error f => simp [Outcome.andThen_of_error hr] at h
    | ok n =>
      rw [Outcome.andThen_of_ok hr, Outcome.result_after] at h
      split at h
      · simp only [Except.ok.injEq] at h
        simp [← h]
      · simp only [Except.ok.injEq, Buffer.read] at h
        rw [← h]
        exact List.length_take_le ..

end Source

end ChunkedTransfer
