import ChunkedTransfer.Buffer.Basic
import ChunkedTransfer.Outcome

/-!
# Sources

A source is a buffer together with the transport that refills it. Bytes that lie in the buffer are used before the
transport is read again.

The flag of a source says whether its buffer holds bytes to be used. A buffer that was used up is cleared before
it is refilled, so that all of the storage is offered to the transport.
-/

namespace ChunkedTransfer

inductive Flag
  /-- The buffer waits for bytes from the transport. -/
  | filling
  /-- The buffer holds bytes to be used. -/
  | draining
  deriving DecidableEq, Repr, Inhabited

def Flag.name : Flag → String
  | filling => "Filling"
  | draining => "Draining"

structure Source (τ : Type) where
  buffer : Buffer
  flag : Flag
  transport : τ
  /-- The transport was seen to be at its end. -/
  exhausted : Bool := false
  /-- The listener was told that the stream is complete. -/
  announced : Bool := false
  deriving DecidableEq, Repr

namespace Source

variable {τ : Type}

/-- A source over a buffer that may hold bytes received earlier. -/
def ofBuffer (buffer : Buffer) (transport : τ) : Source τ where
  buffer := buffer
  flag := if buffer.isEmpty then .filling else .draining
  transport := transport

/-- The number of bytes that can be used without reading the transport. -/
def available (s : Source τ) : Nat :=
  match s.flag with
  | .draining => s.buffer.available
  | .filling => 0

/-- The transport is at its end and all of its bytes were used. -/
def isExhausted (s : Source τ) : Bool := s.exhausted && s.available == 0

/-- Takes note of a buffer that was used up. -/
def noteUsedUp (s : Source τ) : Source τ := if s.buffer.isEmpty then { s with flag := .filling } else s

/-- Wins back the room in front of the data where that is worth it. -/
def recycle (s : Source τ) : Source τ :=
  if s.buffer.wastesRoom then { s with buffer := s.buffer.shift.2 } else s

/-- Takes note of how a read of the stream went. The listener is told the first time that one meets the end. -/
def report (s : Source τ) (result : Except Fault (Progress Nat)) : Source τ × List Event :=
  match result with
  | .ok .ended => if s.announced then (s, []) else ({ s with announced := true }, [.logged .streamEnded, .completed])
  | .ok progress => (s, [.logged (.progressMade progress)])
  | .error fault => (s, [.logged (.readFailed fault)])

variable [Transport τ]

/-- Reads the transport once into the space of the buffer, interruptions aside. Gives whether bytes came. -/
def receive (s : Source τ) : Outcome (Source τ) Bool :=
  let p := Transport.poll s.transport s.buffer.space
  let asked := p.replies.map (Event.asked s.buffer.space)
  match p.reply with
  | .data [] =>
    ⟨.ok false, { s with transport := p.transport, exhausted := true }, asked ++ [.logged .transportExhausted]⟩
  | .data (b :: bs) =>
    ⟨.ok true, { s with transport := p.transport, buffer := (s.buffer.write (b :: bs)).2, flag := .draining },
      asked ++ [.logged (.refilled (b :: bs).length)]⟩
  | .fault f =>
    ⟨if f.kind = .wouldBlock then .ok false else .error f, { s with transport := p.transport }, asked⟩

/-- Appends bytes of the transport to the data. Gives whether any came: there are none if the buffer is full, if
the transport would block or if it is at its end. -/
def refill (s : Source τ) : Outcome (Source τ) Bool :=
  if s.exhausted then ⟨.ok false, s, []⟩
  else if s.buffer.capacity = 0 then ⟨.error .zeroCapacity, s, []⟩
  else if s.recycle.buffer.space = 0 then ⟨.ok false, s.recycle, []⟩
  else s.recycle.receive

/-- Gives the number of bytes that can be used. If there are none the buffer is cleared and refilled first. -/
def replenish (s : Source τ) : Outcome (Source τ) Nat :=
  if 0 < s.available then ⟨.ok s.available, s, []⟩
  else
    refill { s with flag := .filling, buffer := s.buffer.clear } |>.andThen fun refilled s =>
      ⟨.ok (if refilled then s.available else 0), s, []⟩

/-- Takes up to `room` bytes, from the transport only if the buffer holds none. -/
def read (s : Source τ) (room : Nat) : Outcome (Source τ) Bytes :=
  if room = 0 then ⟨.ok [], s, []⟩
  else
    s.replenish.andThen fun available s =>
      if available = 0 then ⟨.ok [], s, []⟩
      else
        let r := s.buffer.read room
        ⟨.ok r.1, noteUsedUp { s with buffer := r.2 }, [.taken r.1]⟩

end Source

end ChunkedTransfer
