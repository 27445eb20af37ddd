import ChunkedTransfer.Source.Supply

/-!
# The data of a buffer

What each operation on a buffer does to its data: `clear` drops it, `shift` keeps it, `write` appends what fits
(`data_write`), and `consume` and `read` take bytes from its front (`data_consume`, `read_append_data`).
-/

namespace ChunkedTransfer.Buffer

theorem isEmpty_iff (b : Buffer) : b.isEmpty = true ↔ b.data = [] := by
  have hs := b.start_le_stop
  rw [isEmpty, beq_iff_eq, ← List.length_eq_zero_iff, length_data, available]
  omega

theorem data_eq_nil_iff (b : Buffer) : b.data = [] ↔ b.available = 0 := by
  rw [← List.length_eq_zero_iff, length_data]

@[simp] theorem data_ofStorage (storage : Bytes) : (ofStorage storage).data = [] := by simp [ofStorage, data]

@[simp] theorem data_clear (b : Buffer) : b.clear.data = [] := by simp [clear, data]

@[simp] theorem capacity_clear (b : Buffer) : b.clear.capacity = b.capacity := rfl

@[simp] theorem space_clear (b : Buffer) : b.clear.space = b.capacity := by simp [space, clear, capacity]

@[simp] theorem data_shift (b : Buffer) : b.shift.2.data = b.data := by
  simp only [shift, data, List.drop_zero]
  exact List.take_left' b.length_data

private theorem data_fill (b : Buffer) (n : Nat) :
    (b.fill n).2.data = b.data ++ (b.storage.drop b.stop).take (min n b.space) := by
  have hs := b.start_le_stop
  have hl := b.stop_le_length
  have ht : (b.storage.take b.stop).length = b.stop := by simp; omega
  simp only [fill, data]
  rw [List.take_add, List.drop_append_of_le_length (by omega)]

@[simp] theorem space_put (b : Buffer) (bs : Bytes) : (b.put bs).space = b.space := by
  have hl := b.stop_le_length
  simp only [space, capacity, put, List.length_append, List.length_take, List.length_drop]
  omega

@[simp] theorem data_put (b : Buffer) (bs : Bytes) : (b.put bs).data = b.data := by
  have hl := b.stop_le_length
  have ht : (b.storage.take b.stop).length = b.stop := by simp; omega
  simp only [put, data]
  rw [List.append_assoc, List.take_append_of_le_length (by omega), List.take_take, Nat.min_self]

private theorem drop_put (b : Buffer) (bs : Bytes) : (b.put bs).storage.drop (b.put bs).stop =
    bs.take b.space ++ b.storage.drop (b.stop + (bs.take b.space).length) := by
  have hl := b.stop_le_length
  have ht : (b.storage.take b.stop).length = b.stop := by simp; omega
  simp only [put]
  rw [List.append_assoc, List.drop_append_of_le_length (by omega), List.drop_of_length_le (by omega),
    List.nil_append]

/-- Of the bytes that were put into the space, the first ones are counted as data. -/
theorem data_fill_put (b : Buffer) (bs : Bytes) {n : Nat} (h : n ≤ bs.length) :
    ((b.put bs).fill n).2.data = b.data ++ (bs.take n).take b.space := by
  rw [data_fill, data_put, space_put, drop_put, List.take_append_of_le_length (by simp; omega), List.take_take,
    List.take_take, Nat.min_assoc, Nat.min_self, Nat.min_comm]

/-- Writing appends what fits. -/
theorem data_write (b : Buffer) (bs : Bytes) : (b.write bs).2.data = b.data ++ bs.take b.space := by
  rw [write, data_fill_put b bs (Nat.le_refl _), List.take_length]

@[simp] theorem data_consume (b : Buffer) (n : Nat) : (b.consume n).2.data = b.data.drop n := by
  simp only [consume, data, List.drop_drop]
  rcases Nat.le_total n b.available with h | h
  · rw [Nat.min_eq_left h]
  · have hs := b.start_le_stop
    have hl := b.stop_le_length
    rw [Nat.min_eq_right h, List.drop_of_length_le, List.drop_of_length_le]
    all_goals simp only [List.length_take, available] at h ⊢; omega

@[simp] theorem capacity_consume (b : Buffer) (n : Nat) : (b.consume n).2.capacity = b.capacity := rfl

/-- The bytes that are read come from the front of the data, and the others stay. -/
theorem read_append_data (b : Buffer) (n : Nat) : (b.read n).1 ++ (b.read n).2.data = b.data := by
  simp [read]

@[simp] theorem capacity_shift (b : Buffer) : b.shift.2.capacity = b.capacity := by
  have hs := b.start_le_stop
  have hl := b.stop_le_length
  simp only [shift, capacity, List.length_append, length_data, List.length_drop, available]
  omega

@[simp] theorem capacity_write (b : Buffer) (bs : Bytes) : (b.write bs).2.capacity = b.capacity := by
  have hl := b.stop_le_length
  simp only [write, fill, put, capacity, List.length_append, List.length_take, List.length_drop, space]
  omega

/-- The data of a buffer that was filled from the front of its storage. -/
theorem data_withReceived (storage : Bytes) (n : Nat) : (withReceived storage n).data = storage.take n := by
  rw [withReceived, data_fill, data_ofStorage, List.nil_append]
  simp only [ofStorage, List.drop_zero, space, capacity, Nat.sub_zero]
  rcases Nat.le_total n storage.length with h | h
  · rw [Nat.min_eq_left h]
  · rw [Nat.min_eq_right h, List.take_length, List.take_of_length_le h]

end ChunkedTransfer.Buffer
