import ChunkedTransfer.Proofs.Span

/-!
# Buffers as queues

Seen from outside a buffer is a queue with room for so many bytes. What is behind the content of the queue is free to be
written, and the places in front of it are lost until they are turned into free ones. A queue has no storage and no
indices, so that nothing can be out of place in it.

One call does the same to a buffer and to its queue (`Buffer.queue_perform`), and on the span of a buffer it finds all
slices that it needs (`Buffer.perform?_toSpan`). Both hold along every row of calls from a storage that is new or was
filled from its front (`Buffer.bounded_queue`).
-/

namespace ChunkedTransfer

namespace Buffer

/-- What is asked of a buffer. -/
inductive Call
  | write (bytes : Bytes)
  | writeAll (bytes : Bytes)
  /-- Bytes are put into the space, and up to `count` of them are counted as data. -/
  | receive (bytes : Bytes) (count : Nat)
  /-- Data is moved to the front of a destination. -/
  | read (dst : Bytes)
  | consume (count : Nat)
  | shift
  | clear
  deriving DecidableEq, Repr

inductive Result
  | count (n : Nat)
  /-- So many bytes were copied, which gives the destination. -/
  | copied (n : Nat) (dst : Bytes)
  | done
  | failed (fault : Fault)
  deriving DecidableEq, Repr

def Result.ofExcept : Except Fault Unit → Result
  | .ok () => done
  | .error fault => failed fault

end Buffer

open Buffer (Call Result)

/-! ### Queues -/

/-- Bytes in their order, the number of free places behind them, and that of the places in front that were used. -/
structure Queue where
  used : Nat
  content : Bytes
  room : Nat
  deriving DecidableEq, Repr

namespace Queue

/-- The queue of a storage that is new, or whose first bytes were received earlier. -/
def opened (storage : Bytes) : Option Nat → Queue
  | none => ⟨0, [], storage.length⟩
  | some n => ⟨0, storage.take n, storage.length - n⟩

/-- Appends what fits. -/
def append (q : Queue) (bs : Bytes) : Queue :=
  { q with content := q.content ++ bs.take q.room, room := q.room - bs.length }

/-- Removes up to `n` bytes from the front. -/
def remove (q : Queue) (n : Nat) : Queue :=
  { q with used := q.used + min n q.content.length, content := q.content.drop n }

def perform (q : Queue) : Call → Result × Queue
  | .write bs => (.count (min bs.length q.room), q.append bs)
  | .writeAll bs => (if bs.length ≤ q.room then .done else .failed .storageFull, q.append bs)
  | .receive bs n => (.count (min (bs.take n).length q.room), q.append (bs.take n))
  | .read dst =>
    (.copied (q.content.take dst.length).length (overwrite dst (q.content.take dst.length)), q.remove dst.length)
  | .consume n => (.count (min n q.content.length), q.remove n)
  | .shift => (.count q.used, ⟨0, q.content, q.used + q.room⟩)
  | .clear => (.done, ⟨0, [], q.used + q.content.length + q.room⟩)

def run (q : Queue) : List Call → List Result × Queue
  | [] => ([], q)
  | c :: cs =>
    let r := (q.perform c).2.run cs
    ((q.perform c).1 :: r.1, r.2)

end Queue

/-! ### Calls on spans and on buffers -/

namespace Span

def opened? (storage : Bytes) : Option Nat → Option Span
  | none => some { storage }
  | some n => do
    let (_, s) ← fill? { storage } n
    return s

def perform? (s : Span) : Call → Option (Result × Span)
  | .write bs => do
    let (n, s) ← s.write? bs
    return (.count n, s)
  | .writeAll bs => do
    let (result, s) ← s.writeAll? bs
    return (.ofExcept result, s)
  | .receive bs n => do
    let s ← s.put? bs
    let (n, s) ← s.fill? (min n bs.length)
    return (.count n, s)
  | .read dst => do
    let ((n, dst), s) ← s.readInto? dst
    return (.copied n dst, s)
  | .consume n => do
    let (n, s) ← s.consume? n
    return (.count n, s)
  | .shift => do
    let (n, s) ← s.shift?
    return (.count n, s)
  | .clear => some (.done, s.clear)

def run? (s : Span) : List Call → Option (List Result × Span)
  | [] => some ([], s)
  | c :: cs => do
    let (a, s) ← s.perform? c
    let (as, s) ← s.run? cs
    return (a :: as, s)

end Span

namespace Buffer

def opened (storage : Bytes) : Option Nat → Buffer
  | none => ofStorage storage
  | some n => withReceived storage n

def perform (b : Buffer) : Call → Result × Buffer
  | .write bs => (.count (b.write bs).1, (b.write bs).2)
  | .writeAll bs => (.ofExcept (b.writeAll bs).1, (b.writeAll bs).2)
  | .receive bs n => (.count ((b.put bs).fill (min n bs.length)).1, ((b.put bs).fill (min n bs.length)).2)
  | .read dst => (.copied (b.readInto dst).1.1 (b.readInto dst).1.2, (b.readInto dst).2)
  | .consume n => (.count (b.consume n).1, (b.consume n).2)
  | .shift => (.count b.shift.1, b.shift.2)
  | .clear => (.done, b.clear)

def run (b : Buffer) : List Call → List Result × Buffer
  | [] => ([], b)
  | c :: cs =>
    let r := (b.perform c).2.run cs
    ((b.perform c).1 :: r.1, r.2)

/-- The queue that a buffer is seen as. -/
def queue (b : Buffer) : Queue := ⟨b.start, b.data, b.space⟩

/-! ### Buffers as spans -/

private theorem opened?_eq (storage : Bytes) (received : Option Nat) :
    Span.opened? storage received = some (opened storage received).toSpan := by
  cases received with
  | none => rfl
  | some n => simp [Span.opened?, Span.fill?, Span.space?, distance?, opened, withReceived, fill, space, capacity,
      ofStorage, toSpan]

/-- Every slice that a call asks for exists. -/
theorem perform?_toSpan (b : Buffer) (c : Call) :
    b.toSpan.perform? c = some ((b.perform c).1, (b.perform c).2.toSpan) := by
  cases c with
  | write bs => simp [Span.perform?, perform, write?_toSpan]
  | writeAll bs => simp [Span.perform?, perform, writeAll?_toSpan]
  | receive bs n => simp [Span.perform?, perform, put?_toSpan, fill?_toSpan]
  | read dst => simp [Span.perform?, perform, readInto?_toSpan]
  | consume n => simp [Span.perform?, perform, consume?_toSpan]
  | shift => simp [Span.perform?, perform, shift?_toSpan]
  | clear => simp [Span.perform?, perform, clear_toSpan]

private theorem run?_toSpan (b : Buffer) (calls : List Call) :
    b.toSpan.run? calls = some ((b.run calls).1, (b.run calls).2.toSpan) := by
  induction calls generalizing b with
  | nil => rfl
  | cons c cs ih => simp [Span.run?, run, perform?_toSpan, ih]

/-! ### Buffers as queues -/

private theorem queue_opened (storage : Bytes) (received : Option Nat) :
    (opened storage received).queue = Queue.opened storage received := by
  cases received with
  | none => simp [opened, queue, Queue.opened, ofStorage, space, capacity, data]
  | some n =>
    have hspace : (withReceived storage n).space = storage.length - n := (ofStorage storage).space_fill n
    simp only [opened, queue, Queue.opened, data_withReceived, hspace]
    rfl

private theorem queue_fill_put (b : Buffer) (bs : Bytes) {n : Nat} (h : n ≤ bs.length) :
    ((b.put bs).fill n).2.queue = b.queue.append (bs.take n) := by
  simp only [queue, Queue.append, data_fill_put b bs h, space_fill, space_put, List.length_take, Nat.min_eq_left h]
  rfl

private theorem queue_write (b : Buffer) (bs : Bytes) : (b.write bs).2.queue = b.queue.append bs := by
  have hput := b.queue_fill_put bs (Nat.le_refl bs.length)
  rwa [List.take_length] at hput

private theorem queue_consume (b : Buffer) (n : Nat) : (b.consume n).2.queue = b.queue.remove n := by
  simp only [queue, Queue.remove, data_consume, b.length_data]
  rfl

private theorem queue_shift (b : Buffer) : b.shift.2.queue = ⟨0, b.data, b.start + b.space⟩ := by
  have hs := b.start_le_stop
  have hl := b.stop_le_length
  have hspace : b.shift.2.space = b.start + b.space := by
    have hstop : b.shift.2.stop = b.available := rfl
    rw [space, capacity_shift, hstop]
    simp only [space, available, capacity]
    omega
  simp only [queue, data_shift, hspace]
  rfl

private theorem queue_clear (b : Buffer) : b.clear.queue = ⟨0, [], b.start + b.data.length + b.space⟩ := by
  have hs := b.start_le_stop
  have hl := b.stop_le_length
  have hspace : b.clear.space = b.start + b.data.length + b.space := by
    rw [space_clear, b.length_data]
    simp only [space, available, capacity]
    omega
  simp only [queue, data_clear, hspace]
  rfl

/-- A call does to the queue of a buffer what it does to the buffer. -/
theorem queue_perform (b : Buffer) (c : Call) : b.queue.perform c = ((b.perform c).1, (b.perform c).2.queue) := by
  cases c with
  | write bs =>
    simp only [Queue.perform, perform, b.queue_write bs, b.fst_write bs]
    rfl
  | writeAll bs =>
    have hstate : (b.writeAll bs).2.queue = b.queue.append bs := b.queue_write bs
    simp only [Queue.perform, perform, hstate]
    by_cases h : bs.length ≤ b.space <;> simp [queue, writeAll, h, Result.ofExcept]
  | receive bs n =>
    have hle : min n bs.length ≤ bs.length := Nat.min_le_right ..
    have htake : bs.take (min n bs.length) = bs.take n := by rw [← List.take_take, List.take_length]
    have hcount : ((b.put bs).fill (min n bs.length)).1 = min (bs.take n).length b.space := by
      change min (min n bs.length) (b.put bs).space = _
      rw [space_put, List.length_take]
    simp only [Queue.perform, perform, b.queue_fill_put bs hle, htake, hcount]
    rfl
  | read dst =>
    simp only [Queue.perform, perform, readInto_eq, read, b.queue_consume]
    rfl
  | consume n =>
    have hlength : b.queue.content.length = b.available := b.length_data
    simp only [Queue.perform, perform, b.queue_consume, hlength]
    rfl
  | shift =>
    simp only [Queue.perform, perform, b.queue_shift]
    rfl
  | clear =>
    simp only [Queue.perform, perform, b.queue_clear]
    rfl

private theorem queue_run (b : Buffer) (calls : List Call) :
    b.queue.run calls = ((b.run calls).1, (b.run calls).2.queue) := by
  induction calls generalizing b with
  | nil => rfl
  | cons c cs ih => simp only [Queue.run, run, queue_perform, ih]

private theorem capacity_perform (b : Buffer) (c : Call) : (b.perform c).2.capacity = b.capacity := by
  cases c with
  | write bs => exact b.capacity_write bs
  | writeAll bs => exact b.capacity_write bs
  | receive bs n => exact b.capacity_write bs
  | read dst => rfl
  | consume n => rfl
  | shift => exact b.capacity_shift
  | clear => rfl

private theorem capacity_run (b : Buffer) (calls : List Call) : (b.run calls).2.capacity = b.capacity := by
  induction calls generalizing b with
  | nil => rfl
  | cons c cs ih => rw [run, ih, capacity_perform]

/-- Whatever is asked of a storage that is new or was filled from its front, every slice that is needed exists. The
places stay in order and within the storage, the length of the storage stays what it was, and the results and the data
are those of a queue. The buffer does the same, without looking whether a slice exists. -/
theorem bounded_queue (storage : Bytes) (received : Option Nat) (calls : List Call) :
    ∃ (results : List Result) (s : Span),
      (Span.opened? storage received).bind (·.run? calls) = some (results, s) ∧
        s.start ≤ s.stop ∧ s.stop ≤ s.storage.length ∧ s.storage.length = storage.length ∧
        (∃ q : Queue, (Queue.opened storage received).run calls = (results, q) ∧
          s.data? = some q.content ∧ s.start = q.used ∧ s.space? = some q.room) ∧
        ∃ b : Buffer, (opened storage received).run calls = (results, b) ∧ b.toSpan = s := by
  have hopened : (opened storage received).capacity = storage.length := by
    cases received <;> rfl
  have hqueue := (opened storage received).queue_run calls
  have hcapacity := (opened storage received).capacity_run calls
  rw [queue_opened] at hqueue
  rw [hopened] at hcapacity
  generalize hrun : (opened storage received).run calls = r at hqueue hcapacity
  refine ⟨r.1, r.2.toSpan, ?_, r.2.start_le_stop, r.2.stop_le_length, hcapacity, ?_, r.2, rfl, rfl⟩
  · rw [opened?_eq, Option.bind_some, run?_toSpan, hrun]
  · exact ⟨r.2.queue, hqueue, r.2.data?_toSpan, rfl, r.2.space?_toSpan⟩

example :
    ((opened [0, 0, 0, 0, 0, 0] none).run
      [.write [1, 2, 3, 4, 5, 6, 7], .read [8, 9], .shift, .receive [7, 8, 9] 3, .consume 4]).1 =
        [.count 6, .copied 2 [1, 2], .count 2, .count 2, .count 4] := by
  decide

end Buffer

end ChunkedTransfer
