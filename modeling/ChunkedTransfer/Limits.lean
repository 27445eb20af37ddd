import ChunkedTransfer.FramingError

/-!
# Limits

The bounds that a decoder puts on the lines and on the payload of a body. Payload is counted in 64 bits, and a sum
that does not fit stays at the largest number of 64 bits, which no bound lies above.
-/

namespace ChunkedTransfer

/-- The largest 64-bit number. -/
def maxSize : UInt64 := 0xffffffffffffffff

structure Limits where
  /-- Longest chunk-size line, extensions included. -/
  chunkLine : Nat := 1024
  /-- Longest trailer line. -/
  trailerLine : Nat := 8192
  /-- Largest payload of one chunk. -/
  chunk : UInt64 := maxSize
  /-- Largest payload of the whole body. -/
  body : UInt64 := maxSize
  deriving DecidableEq, Repr, Inhabited

namespace Limits

/-- Lines as long as any length can be, and payload without bound. -/
def unlimited : Limits where
  chunkLine := maxSize.toNat
  trailerLine := maxSize.toNat

/-- The sum, or the largest number if the sum does not fit. -/
def saturatingAdd (m n : UInt64) : UInt64 :=
  if m.toNat + n.toNat < UInt64.size then m + n else maxSize

/-- The size of a chunk, if it is within the limits after `decoded` bytes of payload. -/
def accept (limits : Limits) (decoded size : UInt64) : Except FramingError UInt64 :=
  if limits.chunk < size then .error (.chunkTooLarge size limits.chunk)
  else if limits.body < saturatingAdd decoded size then
    .error (.bodyTooLarge (saturatingAdd decoded size) limits.body)
  else .ok size

end Limits

end ChunkedTransfer
