import ChunkedTransfer.Transport.Basic

/-!
# Fragments

A transport that replays a script. Each fragment is handed over by the reads that follow, never two of them by one
read, and each gap makes one read block. After the script a closed transport is at its end, an open one blocks.
-/

namespace ChunkedTransfer

/-- What the script holds: a fragment that is not empty, or a gap. -/
inductive Piece
  | fragment (first : UInt8) (others : Bytes)
  | gap
  deriving DecidableEq, Repr, Inhabited

namespace Piece

/-- The script of a byte string. Nothing is needed for the empty one. -/
def ofBytes : Bytes → List Piece
  | [] => []
  | b :: bs => [fragment b bs]

def bytes : Piece → Bytes
  | fragment b bs => b :: bs
  | gap => []

end Piece

structure Fragments where
  queue : List Piece := []
  closed : Bool := false
  deriving DecidableEq, Repr, Inhabited

namespace Fragments

def push (t : Fragments) (bs : Bytes) : Fragments := { t with queue := t.queue ++ Piece.ofBytes bs }

def gap (t : Fragments) : Fragments := { t with queue := t.queue ++ [.gap] }

def close (t : Fragments) : Fragments := { t with closed := true }

/-- Whether neither a fragment nor a gap is left. -/
def isEmpty (t : Fragments) : Bool := t.queue.isEmpty

/-- The bytes that were not read yet. -/
def unread (t : Fragments) : Bytes := t.queue.flatMap Piece.bytes

/-- The given fragments with a gap after each of them, and then the end. -/
def interleaved (fragments : List Bytes) : Fragments :=
  close (fragments.foldl (fun t bs => (t.push bs).gap) {})

def read (t : Fragments) (room : Nat) : Reply × Fragments :=
  match t.queue with
  | .fragment b bs :: rest =>
    (.data ((b :: bs).take room), { t with queue := Piece.ofBytes ((b :: bs).drop room) ++ rest })
  | .gap :: rest => (.fault .wouldBlock, { t with queue := rest })
  | [] => (if t.closed then .ended else .fault .wouldBlock, t)

@[simp] theorem flatMap_bytes_ofBytes (bs : Bytes) : (Piece.ofBytes bs).flatMap Piece.bytes = bs := by
  cases bs <;> simp [Piece.ofBytes, Piece.bytes]

@[simp] theorem unread_push (t : Fragments) (bs : Bytes) : (t.push bs).unread = t.unread ++ bs := by
  simp [unread, push]

@[simp] theorem unread_gap (t : Fragments) : t.gap.unread = t.unread := by simp [unread, gap, Piece.bytes]

@[simp] theorem unread_close (t : Fragments) : t.close.unread = t.unread := rfl

/-- What a read hands over is taken from the front of what was left. -/
theorem bytes_read_append_unread (t : Fragments) (room : Nat) :
    (t.read room).1.bytes ++ (t.read room).2.unread = t.unread := by
  unfold read
  split
  · rename_i b bs rest h
    simp only [Reply.bytes, unread, h, List.flatMap_append, flatMap_bytes_ofBytes, List.flatMap_cons]
    rw [← List.append_assoc, List.take_append_drop, Piece.bytes]
  · rename_i rest h
    simp [Reply.bytes, unread, h, Piece.bytes]
  · split <;> simp [Reply.bytes, Reply.ended]

theorem not_isInterrupted_read (t : Fragments) (room : Nat) : (t.read room).1.isInterrupted = false := by
  unfold read
  split
  · rfl
  · rfl
  · split <;> rfl

theorem length_bytes_read_le (t : Fragments) (room : Nat) : (t.read room).1.bytes.length ≤ room := by
  unfold read
  split
  · exact List.length_take_le ..
  · simp [Reply.bytes]
  · split <;> simp [Reply.bytes, Reply.ended]

instance : Transport Fragments where
  read := read
  budget t := t.unread.length
  length_read_le := length_bytes_read_le
  cost_read_le t room := by
    simp only [Reply.cost, not_isInterrupted_read, Bool.toNat_false, Nat.add_zero]
    exact Nat.le_of_eq (by rw [← List.length_append, bytes_read_append_unread])

end Fragments

end ChunkedTransfer
