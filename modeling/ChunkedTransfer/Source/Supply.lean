import ChunkedTransfer.Source.Basic

/-!
# Supply

The supply of a source is what can still come out of it: the data of its buffer and the budget of its transport.
Refilling does not add to the supply, and taking bytes lowers it by their number. Reading until the end of a line
or of a body stops for this reason.
-/

namespace ChunkedTransfer

namespace Buffer

@[simp] theorem available_clear (b : Buffer) : b.clear.available = 0 := rfl

@[simp] theorem available_shift (b : Buffer) : b.shift.2.available = b.available := by
  simp [shift, available]

private theorem available_write_le (b : Buffer) (bs : Bytes) : (b.write bs).2.available ≤ b.available + bs.length := by
  simp only [write, fill, put, available]
  have := Nat.min_le_left bs.length (b.put bs).space
  simp only [put] at this
  omega

theorem available_consume (b : Buffer) (n : Nat) :
    (b.consume n).2.available + min n b.available = b.available := by
  have := b.start_le_stop
  simp only [consume, available]
  omega

end Buffer

namespace Source

variable {τ : Type}

private theorem available_le (s : Source τ) : s.available ≤ s.buffer.available := by
  unfold available
  split
  · exact Nat.le_refl _
  · exact Nat.zero_le _

variable [Transport τ]

def supply (s : Source τ) : Nat := s.buffer.available + Transport.budget s.transport

@[simp] theorem supply_noteUsedUp (s : Source τ) : s.noteUsedUp.supply = s.supply := by
  unfold noteUsedUp
  split <;> rfl

@[simp] theorem supply_recycle (s : Source τ) : s.recycle.supply = s.supply := by
  unfold recycle
  split
  · simp [supply]
  · rfl

@[simp] theorem supply_report (s : Source τ) (r : Except Fault (Progress Nat)) :
    (s.report r).1.supply = s.supply := by
  unfold report
  split
  · split <;> rfl
  · rfl
  · rfl

private theorem supply_receive_le (s : Source τ) : s.receive.state.supply ≤ s.supply := by
  have hc := Transport.cost_poll_le s.transport s.buffer.space
  have hl := Reply.length_bytes_le_cost (Transport.poll s.transport s.buffer.space).reply
  unfold receive
  simp only
  split
  · simp only [supply]
    omega
  · rename_i b bs h
    have hw := s.buffer.available_write_le (b :: bs)
    rw [h, Reply.bytes] at hl
    rw [h] at hc
    simp only [supply]
    omega
  · simp only [supply]
    omega

private theorem supply_refill_le (s : Source τ) : s.refill.state.supply ≤ s.supply := by
  unfold refill
  split
  · exact Nat.le_refl _
  · split
    · exact Nat.le_refl _
    · split
      · exact Nat.le_of_eq s.supply_recycle
      · exact Nat.le_trans s.recycle.supply_receive_le (Nat.le_of_eq s.supply_recycle)

theorem supply_replenish_le (s : Source τ) : s.replenish.state.supply ≤ s.supply := by
  unfold replenish
  split
  · exact Nat.le_refl _
  · have h := supply_refill_le { s with flag := .filling, buffer := s.buffer.clear }
    have hc : supply { s with flag := .filling, buffer := s.buffer.clear } ≤ s.supply := by
      simp [supply]
    simp only [Outcome.andThen]
    split
    · simpa using Nat.le_trans h hc
    · exact Nat.le_trans h hc

/-- The number that `replenish` gives is that of the bytes which can be used afterwards, and they lie in the
buffer. -/
theorem le_available_of_replenish {s : Source τ} {n : Nat} (h : s.replenish.result = .ok n) :
    n ≤ s.replenish.state.buffer.available := by
  unfold replenish at h ⊢
  split at h
  · rename_i hp
    simp only [Except.ok.injEq] at h
    simpa [hp, ← h] using s.available_le
  · rename_i hp
    simp only [if_neg hp]
    unfold Outcome.andThen at h ⊢
    split at h
    · rename_i refilled hr
      simp only [Outcome.result_after, Except.ok.injEq] at h
      simp only [Outcome.state_after]
      rw [← h]
      split
      · exact available_le _
      · exact Nat.zero_le _
    · simp at h

/-- Taking bytes lowers the supply by their number. -/
theorem supply_read_le {s : Source τ} {room : Nat} {bs : Bytes} (h : (s.read room).result = .ok bs) :
    bs.length + (s.read room).state.supply ≤ s.supply := by
  unfold read at h ⊢
  split at h
  · rename_i hr
    simp only [Except.ok.injEq] at h
    simp [hr, ← h]
  · rename_i hr
    have hs := s.supply_replenish_le
    simp only [if_neg hr]
    unfold Outcome.andThen at h ⊢
    split at h
    · rename_i n he
      simp only [Outcome.state_after]
      simp only [Outcome.result_after] at h
      split at h
      · rename_i hn
        simp only [Except.ok.injEq] at h
        simpa [hn, ← h] using hs
      · rename_i hn
        simp only [Except.ok.injEq, Buffer.read] at h
        have hc := s.replenish.state.buffer.available_consume room
        simp only [if_neg hn, ← h, List.length_take, Buffer.length_data, supply_noteUsedUp]
        simp only [supply, Buffer.read] at hs hc ⊢
        omega
    · simp at h

theorem supply_read_le_self (s : Source τ) (room : Nat) : (s.read room).state.supply ≤ s.supply := by
  unfold read
  split
  · exact Nat.le_refl _
  · have hs := s.supply_replenish_le
    unfold Outcome.andThen
    split
    · rename_i n he
      simp only [Outcome.state_after]
      split
      · exact hs
      · have hc := s.replenish.state.buffer.available_consume room
        simp only [supply_noteUsedUp]
        simp only [supply, Buffer.read] at hs hc ⊢
        omega
    · exact hs

end Source

end ChunkedTransfer
