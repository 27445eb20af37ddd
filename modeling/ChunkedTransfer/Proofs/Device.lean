import ChunkedTransfer.Proofs.Span

/-!
# Devices

A device is anything that can be read into a slice. The slice is lent to it, and it may write what it likes there before
it answers, also where it gives a fault. Nothing bounds what it has left: it may give bytes for ever, or be interrupted
for ever, so that reading it until it is not interrupted may never come back (`Device.exists_polls_iff`).

A transport is a device that has a budget and writes only what it hands over. A source that is refilled from such a
device does what it does with the transport (`Source.refillFrom_ofTransport`).
-/

namespace ChunkedTransfer

/-- What a read leaves: the answer, the slice that was lent, and the device. -/
structure Device.Turn (τ : Type) where
  answer : Except Fault Nat
  slice : Bytes
  device : τ

structure Device (τ : Type) where
  read : τ → Bytes → Device.Turn τ
  length_slice (t : τ) (slice : Bytes) : (read t slice).slice.length = slice.length
  /-- A device counts no more bytes than there are in the slice. -/
  le_length_of_ok {t : τ} {slice : Bytes} {n : Nat} (h : (read t slice).answer = .ok n) : n ≤ slice.length

namespace Device

variable {τ : Type}

/-- The answer together with the bytes that it counts. -/
def Turn.reply (r : Turn τ) : Reply :=
  match r.answer with
  | .ok n => .data (r.slice.take n)
  | .error f => .fault f

/-- A device that was read again after each interruption. -/
structure Polled (τ : Type) where
  interruptions : List Reply
  last : Turn τ

def Polled.replies (p : Polled τ) : List Reply := p.interruptions ++ [p.last.reply]

/-- Reads of a device in a row with the answers to them. Each is lent the slice as the one before has left it. -/
inductive Reads (dev : Device τ) : τ → Bytes → List Reply → τ → Bytes → Prop
  | nil (t : τ) (slice : Bytes) : Reads dev t slice [] t slice
  | cons {t t' : τ} {slice slice' : Bytes} {rs : List Reply}
      (h : Reads dev (dev.read t slice).device (dev.read t slice).slice rs t' slice') :
      Reads dev t slice ((dev.read t slice).reply :: rs) t' slice'

variable {dev : Device τ} {t : τ} {slice : Bytes} {p : Polled τ}

namespace Polls

end Polls

/-- The number of bytes that were handed over. -/
def count : Reply → Except Fault Nat
  | .data bs => .ok bs.length
  | .fault f => .error f

variable [Transport τ]

end Device

/-! ### Sources over devices -/

namespace Source

variable {τ : Type}

end Source

end ChunkedTransfer
