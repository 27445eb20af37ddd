import ChunkedTransfer.Bytes
import ChunkedTransfer.Fault

/-!
# Buffers

A storage of fixed size in which the bytes that were received and not yet used lie side by side:

```txt
 0           start           stop      capacity
 [             ██████████████              ]
               <---- data --><-- space ---->
```

Bytes are written into the space and used from the front of the data. The room in front of the data is won back by
`clear` when there is no data, and by `shift` when there is.
-/

namespace ChunkedTransfer

structure Buffer where
  storage : Bytes
  start : Nat := 0
  stop : Nat := 0
  start_le_stop : start ≤ stop := by omega
  stop_le_length : stop ≤ storage.length := by omega
  deriving DecidableEq, Repr

namespace Buffer

/-- A buffer without data. -/
def ofStorage (storage : Bytes) : Buffer where
  storage := storage

def capacity (b : Buffer) : Nat := b.storage.length

/-- The number of bytes that can be used. -/
def available (b : Buffer) : Nat := b.stop - b.start

/-- The number of bytes that can be written. -/
def space (b : Buffer) : Nat := b.capacity - b.stop

def isEmpty (b : Buffer) : Bool := b.start == b.stop

def isFull (b : Buffer) : Bool := b.stop == b.capacity

/-- The bytes that were received and not yet used. -/
def data (b : Buffer) : Bytes := (b.storage.take b.stop).drop b.start

/-- Counts up to `n` bytes of the space as data. Gives their number. -/
def fill (b : Buffer) (n : Nat) : Nat × Buffer :=
  (min n b.space,
    { b with
      stop := b.stop + min n b.space
      start_le_stop := Nat.le_add_right_of_le b.start_le_stop
      stop_le_length := by
        have := b.stop_le_length
        simp only [space, capacity]
        omega })

/-- Counts the first bytes of the storage as data that was received earlier. -/
def withReceived (storage : Bytes) (n : Nat) : Buffer := ((ofStorage storage).fill n).2

/-- Drops up to `n` bytes from the front of the data. Gives their number. -/
def consume (b : Buffer) (n : Nat) : Nat × Buffer :=
  (min n b.available,
    { b with
      start := b.start + min n b.available
      start_le_stop := by
        have := b.start_le_stop
        simp only [available]
        omega })

/-- Drops all data. -/
def clear (b : Buffer) : Buffer where
  storage := b.storage

/-- Whether the room in front of the data is worth winning back. -/
def wastesRoom (b : Buffer) : Bool := b.capacity / 2 < b.start || (0 < b.start && b.isEmpty)

theorem length_data (b : Buffer) : b.data.length = b.available := by
  simp [data, available, Nat.min_eq_left b.stop_le_length]

theorem available_le_capacity (b : Buffer) : b.available ≤ b.capacity :=
  Nat.le_trans (Nat.sub_le ..) b.stop_le_length

/-- Moves the data to the front of the storage. Gives the room that was won. -/
def shift (b : Buffer) : Nat × Buffer :=
  (b.start,
    { storage := b.data ++ b.storage.drop b.available
      stop := b.available
      start_le_stop := Nat.zero_le _
      stop_le_length := by simp [length_data] })

/-- Copies what fits into the space, which stays space. -/
def put (b : Buffer) (bs : Bytes) : Buffer :=
  { b with
    storage := b.storage.take b.stop ++ bs.take b.space ++ b.storage.drop (b.stop + (bs.take b.space).length)
    stop_le_length := by
      have := b.stop_le_length
      simp only [List.length_append, List.length_take]
      omega }

/-- Appends what fits to the data. Gives the number of bytes that fit. -/
def write (b : Buffer) (bs : Bytes) : Nat × Buffer := (b.put bs).fill bs.length

/-- Appends what fits to the data. It is a fault if that is not everything. -/
def writeAll (b : Buffer) (bs : Bytes) : Except Fault Unit × Buffer :=
  (if bs.length ≤ b.space then .ok () else .error .storageFull, (b.write bs).2)

/-- Takes up to `n` bytes from the front of the data. -/
def read (b : Buffer) (n : Nat) : Bytes × Buffer := (b.data.take n, (b.consume n).2)

/-- The buffer with its data at another place of the storage, if there is such a place. -/
def reposition? (b : Buffer) (start stop : Nat) : Option Buffer :=
  if h : start ≤ stop ∧ stop ≤ b.storage.length then
    some { b with start := start, stop := stop, start_le_stop := h.1, stop_le_length := h.2 }
  else
    none

end Buffer

end ChunkedTransfer
