import ChunkedTransfer.Proofs.Agreement

/-!
# Reading into a destination

A read can also be seen with the destination that its caller provides. The bytes are copied where they leave the buffer,
and a decoder hands down no more of the destination than the chunk has payload for. Such a read comes to the same as one
that gives the payload as a value, with the payload written over the front of the destination and nothing else changed
in it (`Decoder.readInto_eq`).
-/

namespace ChunkedTransfer

/-- The destination with bytes written over its front. -/
def overwrite (dst bs : Bytes) : Bytes := bs ++ dst.drop bs.length

/-- What is written over the front of a part stays within the part. -/
private theorem overwrite_take {dst bs : Bytes} {n : Nat} (h : bs.length ≤ n) :
    overwrite (dst.take n) bs ++ dst.drop n = overwrite dst bs := by
  rw [overwrite, overwrite, List.append_assoc]
  congr 1
  rw [List.drop_take, ← Nat.add_sub_cancel' h, Nat.add_sub_cancel_left, ← List.drop_drop]
  exact List.take_append_drop _ _

namespace Outcome

variable {σ α β : Type}

/-- The outcome of something that has written bytes over the front of a destination, and gives their number. -/
def writing (r : Outcome σ α) (count : α → β) (dst bs : Bytes) : Outcome (σ × Bytes) β :=
  ⟨r.result.map count, (r.state, overwrite dst bs), r.events⟩

private theorem writing_of_ok {r : Outcome σ α} {a : α} (h : r.result = .ok a) (count : α → β) (dst bs : Bytes) :
    r.writing count dst bs = ⟨.ok (count a), (r.state, overwrite dst bs), r.events⟩ := by
  rw [writing, h]
  rfl

private theorem writing_of_error {r : Outcome σ α} {f : Fault} (h : r.result = .error f) (count : α → β)
    (dst bs : Bytes) : r.writing count dst bs = ⟨.error f, (r.state, overwrite dst bs), r.events⟩ := by
  rw [writing, h]
  rfl

private theorem exists_of_writing_ok {r : Outcome σ α} {count : α → β} {dst bs : Bytes} {b : β}
    (h : (r.writing count dst bs).result = .ok b) : ∃ a, r.result = .ok a ∧ count a = b := by
  cases hr : r.result with
  | ok a => exact ⟨a, rfl, by simpa [writing_of_ok hr] using h⟩
  | error f => simp [writing_of_error hr] at h

private theorem result_of_writing_error {r : Outcome σ α} {count : α → β} {dst bs : Bytes} {f : Fault}
    (h : (r.writing count dst bs).result = .error f) : r.result = .error f := by
  cases hr : r.result with
  | ok a => simp [writing_of_ok hr] at h
  | error g => simpa [writing_of_error hr] using h

end Outcome

/-- Copies data to the front of the destination and drops it. Gives the number of bytes. -/
def Buffer.readInto (b : Buffer) (dst : Bytes) : (Nat × Bytes) × Buffer :=
  let n := min b.available dst.length
  ((n, overwrite dst (b.data.take n)), (b.consume n).2)

theorem Buffer.readInto_eq (b : Buffer) (dst : Bytes) :
    b.readInto dst =
      (((b.read dst.length).1.length, overwrite dst (b.read dst.length).1), (b.read dst.length).2) := by
  have htake : b.data.take (min b.available dst.length) = b.data.take dst.length := by
    rw [← b.length_data, Nat.min_comm, ← List.take_take, List.take_length]
  have hconsume : (b.consume (min b.available dst.length)).2 = (b.consume dst.length).2 := by
    simp only [consume, Nat.min_comm b.available, Nat.min_assoc, Nat.min_self]
  simp only [readInto, read]
  rw [htake, hconsume, List.length_take, b.length_data, Nat.min_comm]

namespace Source

variable {τ : Type} [Transport τ]

/-- Fills the front of the destination with bytes, from the transport only if the buffer holds none. -/
def readInto (s : Source τ) (dst : Bytes) : Outcome (Source τ × Bytes) Nat :=
  if dst.length = 0 then ⟨.ok 0, (s, dst), []⟩
  else
    (s.replenish.mapState fun s => (s, dst)).andThen fun available (s, dst) =>
      if available = 0 then ⟨.ok 0, (s, dst), []⟩
      else
        let r := s.buffer.readInto dst
        ⟨.ok r.1.1, (noteUsedUp { s with buffer := r.2 }, r.1.2), [.taken (r.1.2.take r.1.1)]⟩

private theorem readInto_eq (s : Source τ) (dst : Bytes) :
    s.readInto dst = (s.read dst.length).writing List.length dst ((s.read dst.length).bytesOf id) := by
  unfold readInto read
  split
  · rfl
  · cases hr : s.replenish.result with
    | error f =>
      rw [Outcome.andThen_of_error hr, Outcome.andThen_of_error (by exact hr)]
      rfl
    | ok n =>
      rw [Outcome.andThen_of_ok hr, Outcome.andThen_of_ok (by exact hr)]
      simp only [Outcome.mapState]
      split
      · rfl
      · rw [Buffer.readInto_eq]
        simp [Outcome.writing, Outcome.bytesOf, Outcome.after, Except.map, overwrite]

/-- Fills no more than the given number of bytes at the front of the destination. -/
def readIntoFront (s : Source τ) (dst : Bytes) (cap : Nat) : Outcome (Source τ × Bytes) Nat :=
  (s.readInto (dst.take cap)).mapState fun r => (r.1, r.2 ++ dst.drop cap)

private theorem readIntoFront_eq (s : Source τ) {dst : Bytes} {cap : Nat} (h : cap ≤ dst.length) :
    s.readIntoFront dst cap = (s.read cap).writing List.length dst ((s.read cap).bytesOf id) := by
  have hlength : ((s.read cap).bytesOf id).length ≤ cap := by
    cases hr : (s.read cap).result with
    | error f => simp [Outcome.bytesOf_of_error hr]
    | ok bs => simpa [Outcome.bytesOf_of_ok hr] using length_read_le hr
  rw [readIntoFront, readInto_eq, List.length_take, Nat.min_eq_left h, Outcome.writing, Outcome.writing,
    Outcome.mapState, overwrite_take hlength]

end Source

namespace Decoder

variable {τ : Type} [Transport τ]

/-- The number of payload bytes in place of the payload. -/
def countStep : Option (Progress Bytes) → Option (Progress Nat) := Option.map (Progress.map List.length)

/-- Hands over payload of the current chunk at the front of the destination. -/
def handOverInto (d : Decoder τ) (dst : Bytes) : Outcome (Decoder τ × Bytes) (Option (Progress Nat)) :=
  if dst.length = 0 then ⟨.ok (some (.read 0)), (d, dst), []⟩
  else
    let r := d.source.readIntoFront dst (min dst.length d.remaining.toNat)
    let d' := { d with source := r.state.1 }
    match r.result with
    | .error f => ⟨.error f, (d', r.state.2), r.events⟩
    | .ok 0 => (d'.stall.writing countStep r.state.2 []).after r.events
    | .ok (n + 1) =>
      let count := (n + 1).toUInt64
      ⟨.ok (some (.read (n + 1))),
        ({ d' with remaining := d.remaining - count, decoded := d.decoded + count }, r.state.2), r.events⟩

/-- What the decoder does in its phase. Only payload is written to the destination. -/
def stepInto (δ : Dialect) (d : Decoder τ) (dst : Bytes) : Outcome (Decoder τ × Bytes) (Option (Progress Nat)) :=
  if d.phase = .data ∧ 0 < d.remaining then d.handOverInto dst else (d.step δ dst.length).writing countStep dst []

omit [Transport τ] in
private theorem payloadOf_stall (d : Decoder τ) : payloadOf d.stall.result = [] := by
  unfold stall
  split <;> rfl

private theorem handOverInto_eq (d : Decoder τ) (dst : Bytes) :
    d.handOverInto dst = (d.handOver dst.length).writing countStep dst (payloadOf (d.handOver dst.length).result) := by
  unfold handOverInto handOver
  split
  · rfl
  · simp only
    rw [Source.readIntoFront_eq _ (Nat.min_le_left ..)]
    cases hr : (d.source.read (min dst.length d.remaining.toNat)).result with
    | error f =>
      rw [Outcome.writing_of_error hr, Outcome.bytesOf_of_error hr]
      rfl
    | ok bs =>
      rw [Outcome.writing_of_ok hr, Outcome.bytesOf_of_ok hr]
      cases bs with
      | nil =>
        simp only [List.length_nil, Outcome.result_after]
        rw [payloadOf_stall]
        rfl
      | cons b bs => rfl

private theorem stepInto_eq (δ : Dialect) (d : Decoder τ) (dst : Bytes) :
    d.stepInto δ dst = (d.step δ dst.length).writing countStep dst (payloadOf (d.step δ dst.length).result) := by
  unfold stepInto
  split
  · rename_i h
    rw [handOverInto_eq, step, h.1]
    simp only [if_pos h.2]
  · rename_i h
    rw [payloadOf_of_ne_read fun bs hr => ?_]
    obtain ⟨hp, hn, -⟩ := step_of_read hr
    exact h ⟨hp, hn⟩

/-- A step without an answer goes on with the same destination. -/
private theorem stepInto_of_none {δ : Dialect} {d : Decoder τ} {dst : Bytes}
    (h : (d.stepInto δ dst).result = .ok none) :
    (d.step δ dst.length).result = .ok none ∧
      d.stepInto δ dst = ⟨.ok none, ((d.step δ dst.length).state, dst), (d.step δ dst.length).events⟩ := by
  rw [stepInto_eq] at h ⊢
  obtain ⟨p, hr, hp⟩ := Outcome.exists_of_writing_ok h
  obtain rfl : p = none := by simpa [countStep] using hp
  rw [Outcome.writing_of_ok hr, hr]
  exact ⟨rfl, rfl⟩

/-- Goes from step to step until there is an answer. -/
def advanceInto (δ : Dialect) (d : Decoder τ) (dst : Bytes) : Outcome (Decoder τ × Bytes) (Progress Nat) :=
  let r := d.stepInto δ dst
  match _h : r.result with
  | .error f => ⟨.error f, r.state, r.events⟩
  | .ok (some p) => ⟨.ok p, r.state, r.events⟩
  | .ok none => (advanceInto δ r.state.1 r.state.2).after r.events
termination_by d.work
decreasing_by
  obtain ⟨hn, hr⟩ := stepInto_of_none _h
  rw [hr]
  exact work_step_lt hn

/-- Hands over payload at the front of the destination, or tells why there is none. -/
def readInto (δ : Dialect) (d : Decoder τ) (dst : Bytes) : Outcome (Decoder τ × Bytes) (Progress Nat) :=
  let r := d.advanceInto δ dst
  let s := r.state.1.source.report r.result
  ⟨r.result, ({ r.state.1 with source := s.1 }, r.state.2), r.events ++ s.2⟩

private theorem advanceInto_eq (δ : Dialect) (d : Decoder τ) (dst : Bytes) :
    d.advanceInto δ dst =
      (d.advance δ dst.length).writing (Progress.map List.length) dst
        ((d.advance δ dst.length).bytesOf Progress.payload) := by
  fun_induction advanceInto δ d dst with
  | case1 d dst r f hr =>
    simp only [r, stepInto_eq] at hr ⊢
    have hstep := Outcome.result_of_writing_error hr
    rw [advance_of_error hstep, hstep]
    rfl
  | case2 d dst r p hr =>
    simp only [r, stepInto_eq] at hr ⊢
    obtain ⟨q, hstep, hq⟩ := Outcome.exists_of_writing_ok hr
    obtain ⟨q, rfl, rfl⟩ : ∃ q', q = some q' ∧ q'.map List.length = p := by simpa [countStep] using hq
    rw [advance_of_answer hstep, hstep]
    rfl
  | case3 d dst r hr ih =>
    obtain ⟨hstep, hinto⟩ := stepInto_of_none hr
    simp only [r, hinto] at ih ⊢
    rw [ih, advance_of_none hstep]
    rfl

/-- What is read into a destination is what is read into room of its length. -/
theorem readInto_eq (δ : Dialect) (d : Decoder τ) (dst : Bytes) :
    d.readInto δ dst =
      (d.read δ dst.length).writing (Progress.map List.length) dst
        ((d.read δ dst.length).bytesOf Progress.payload) := by
  rw [readInto, advanceInto_eq]
  rfl

end Decoder

end ChunkedTransfer
