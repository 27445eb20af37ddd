import ChunkedTransfer.Proofs.Run
import ChunkedTransfer.Transport.Fragments

/-!
# Conservation of bytes

No byte is lost, doubled or put out of order between the transport and whoever takes bytes out of the source: what
was in the buffer at first and what came in since is what was taken so far and what is in the buffer now
(`conservation`). What came in is what the transport answered when it was read (`Transport.Reads`). The invariant that
carries this is that a source waits for bytes only if it has none (`Source.Consistent`), so that clearing its buffer
drops nothing.
-/

namespace ChunkedTransfer

/-- Interruptions hand over no bytes. -/
private theorem Transport.flatMap_bytes_interruptions {τ : Type} [Transport τ] (t : τ) (room : Nat) :
    (poll t room).interruptions.flatMap Reply.bytes = [] := by
  fun_induction poll t room with
  | case1 t r h p ih =>
    simp only [List.flatMap_cons, p] at ih ⊢
    rw [ih, List.append_nil]
    cases hr : (read t room).1 with
    | data bs => simp [r, hr, Reply.isInterrupted] at h
    | fault f => rfl
  | case2 t r h => rfl

namespace Source

variable {τ : Type}

/-- A source whose flag says that it waits for bytes has none. -/
def Consistent (s : Source τ) : Prop := s.flag = .filling → s.buffer.data = []

theorem consistent_ofBuffer (b : Buffer) (t : τ) : (ofBuffer b t).Consistent := by
  intro h
  simp only [ofBuffer] at h ⊢
  split at h
  · rename_i hb
    exact b.isEmpty_iff.1 hb
  · simp at h

theorem Consistent.data_eq_nil {s : Source τ} (h : s.Consistent) (ha : s.available = 0) : s.buffer.data = [] := by
  cases hf : s.flag with
  | filling => exact h hf
  | draining =>
    rw [Buffer.data_eq_nil_iff]
    simpa [available, hf] using ha

private theorem Consistent.noteUsedUp {s : Source τ} (h : s.Consistent) : s.noteUsedUp.Consistent := by
  intro hf
  rw [buffer_noteUsedUp]
  unfold Source.noteUsedUp at hf
  split at hf
  · rename_i he
    exact s.buffer.isEmpty_iff.1 he
  · exact h hf

variable [Transport τ]

theorem received_receive (s : Source τ) :
    received s.receive.events = (Transport.poll s.transport s.buffer.space).reply.bytes := by
  rw [received_eq, replies_receive, Polled.replies, List.flatMap_append, Transport.flatMap_bytes_interruptions]
  simp

/-- What the transport hands over is appended to the data. -/
theorem data_receive (s : Source τ) : s.receive.state.buffer.data = s.buffer.data ++ received s.receive.events := by
  rw [received_receive]
  have hl := Transport.length_poll_le s.transport s.buffer.space
  unfold receive
  simp only
  split
  · rename_i h
    simp [h, Reply.bytes]
  · rename_i b bs h
    rw [h, Reply.bytes] at hl ⊢
    simp only
    rw [Buffer.data_write, List.take_of_length_le hl]
  · rename_i f h
    simp [h, Reply.bytes]

private theorem Consistent.receive {s : Source τ} (h : s.Consistent) : s.receive.state.Consistent := by
  unfold Source.receive
  simp only
  split
  · exact h
  · intro hf
    simp at hf
  · exact h

/-- Along a trace the source stays consistent, and no byte is lost. -/
theorem Trace.conserves {s s' : Source τ} {es : List Event} (h : Trace s es s') (hs : s.Consistent) :
    s'.Consistent ∧ s.buffer.data ++ received es = consumed es ++ s'.buffer.data := by
  induction h with
  | refl s => exact ⟨hs, by simp⟩
  | trans _ _ ih ih' =>
    obtain ⟨hs', he⟩ := ih hs
    obtain ⟨hs'', he'⟩ := ih' hs'
    refine ⟨hs'', ?_⟩
    rw [received_append, consumed_append, ← List.append_assoc, he, List.append_assoc, he', List.append_assoc]
  | recycle s =>
    constructor
    · intro hf
      rw [flag_recycle] at hf
      rw [data_recycle]
      exact hs hf
    · simp
  | clear ha =>
    -- What is cleared is empty, since a source that has bytes does not wait for them.
    have hd := hs.data_eq_nil ha
    constructor
    · intro _
      exact Buffer.data_clear _
    · simp [hd]
  | receive =>
    constructor
    · exact hs.receive
    · rw [consumed_receive, data_receive, List.nil_append]
  | take s n =>
    constructor
    · apply Consistent.noteUsedUp
      intro hf
      simp [Buffer.read, hs hf]
    · simpa using (s.buffer.read_append_data n).symm
  | noteUsedUp s => exact ⟨hs.noteUsedUp, by simp⟩
  | markDraining s =>
    constructor
    · intro hf
      simp at hf
    · simp
  | report s result =>
    constructor
    · intro hf
      rw [flag_report] at hf
      rw [buffer_report]
      exact hs hf
    · simp
  | log s r => exact ⟨hs, by simp⟩

end Source

namespace Decoder

variable {τ : Type} [Transport τ]

/-- Along every run, what the buffer held at first and what the transport handed over is, in this order, what was
taken so far and what the buffer holds. The transport has gone from its first state to the present one by the reads
whose answers are among the events, and by nothing else. What an operation takes is framed as lines or given to the
caller, and only a read of the decoder frames anything. A buffer is empty where it may be cleared. -/
theorem conservation (δ : Dialect) (limits : Limits) (b : Buffer) (t : τ) (ops : List Operation) :
    let d := ofSource (.ofBuffer b t) limits
    let s := (d.finish δ ops).source
    Transport.Reads t (replies (eventsOf (d.run δ ops))) s.transport ∧
      b.data ++ received (eventsOf (d.run δ ops)) = consumed (eventsOf (d.run δ ops)) ++ s.buffer.data ∧
      (s.flag = .filling → s.buffer.data = []) ∧ (s.available = 0 → s.buffer.data = []) ∧
      ∀ op, ∃ framed, consumed ((d.finish δ ops).perform δ op).events =
          framed ++ ((d.finish δ ops).perform δ op).given ∧
        ((∀ room, op ≠ .read room) → framed = []) := by
  intro d s
  have htrace := d.trace_run δ ops
  obtain ⟨hs, he⟩ := htrace.conserves (Source.consistent_ofBuffer b t)
  exact ⟨htrace.reads, he, hs, hs.data_eq_nil, fun op => consumed_perform δ _ op⟩

/-- A body of which a part lies in the buffer. More comes by a refill, and after a gap by another one. -/
theorem conservation_of_begun_body :
    let t : Fragments := ⟨[.fragment 10 [97], .gap, .fragment 13 [10, 48]], false⟩
    let d := ofSource (.ofBuffer (.withReceived [50, 13, 0, 0, 0, 0] 2) t) {}
    let ops : List Operation := [.refill, .read 1, .read 1, .refill]
    let s := (d.finish .strict ops).source
    Transport.Reads t [.data [10, 97], .fault .wouldBlock, .data [13, 10, 48]] s.transport ∧
      [50, 13] ++ [10, 97, 13, 10, 48] = [50, 13, 10, 97] ++ s.buffer.data := by
  intro t d ops s
  have hreplies : replies (eventsOf (d.run .strict ops)) =
      [.data [10, 97], .fault .wouldBlock, .data [13, 10, 48]] := by decide +kernel
  have hconsumed : consumed (eventsOf (d.run .strict ops)) = [50, 13, 10, 97] := by decide +kernel
  obtain ⟨hreads, hconserved, -⟩ := conservation .strict {} (.withReceived [50, 13, 0, 0, 0, 0] 2) t ops
  rw [received_eq] at hconserved
  rw [hreplies, hconsumed] at hconserved
  rw [hreplies] at hreads
  exact ⟨hreads, hconserved⟩

end Decoder

end ChunkedTransfer
