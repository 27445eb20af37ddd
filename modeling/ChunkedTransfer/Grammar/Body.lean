import ChunkedTransfer.Grammar.Line
import ChunkedTransfer.Limits

/-!
# Bodies

A chunked body as a value: its chunks, the size line of value zero after them, and its trailer lines. A body is
sent as a size line, payload and an empty line for each chunk, then the last size line, the trailer lines and an
empty line.
-/

namespace ChunkedTransfer.Grammar

structure Chunk where
  sizeLine : Bytes
  payload : Bytes
  deriving DecidableEq, Repr

structure Body where
  chunks : List Chunk
  lastLine : Bytes
  trailers : List Bytes
  deriving DecidableEq, Repr

/-- The bytes of a line with a full line end. -/
def encodeLine (line : Bytes) : Bytes := line ++ [carriageReturn, lineFeed]

/-- A line that can be framed within a limit. -/
def Framed (limit : Nat) (line : Bytes) : Prop := lineFeed ∉ line ∧ line.length ≤ limit

instance (limit : Nat) (line : Bytes) : Decidable (Framed limit line) := inferInstanceAs (Decidable (_ ∧ _))

namespace Chunk

def encode (c : Chunk) : Bytes := encodeLine c.sizeLine ++ c.payload ++ encodeLine []

/-- The bytes of a row of chunks, with the line ends of the dialect. -/
inductive Sent (δ : Dialect) : List Chunk → Bytes → Prop
  | nil : Sent δ [] []
  | cons {c : Chunk} {cs : List Chunk} {head tail rest : Bytes} (hh : Grammar.Sent δ [c.sizeLine] head)
      (ht : Grammar.Sent δ [[]] tail) (hr : Sent δ cs rest) : Sent δ (c :: cs) (head ++ c.payload ++ tail ++ rest)

/-- The size line gives the length of the payload, which is not empty, and both are within the limits. -/
structure WellFormed (limits : Limits) (c : Chunk) : Prop where
  size : ∃ numeral, IsSizeLine c.sizeLine numeral ∧ numeralValue numeral = c.payload.length
  framed : Framed limits.chunkLine c.sizeLine
  nonempty : c.payload ≠ []
  length_le : c.payload.length ≤ limits.chunk.toNat

end Chunk

namespace Body

def payload (b : Body) : Bytes := b.chunks.flatMap Chunk.payload

/-- The bytes of the body with full line ends. -/
def encode (b : Body) : Bytes :=
  b.chunks.flatMap Chunk.encode ++ encodeLine b.lastLine ++ b.trailers.flatMap encodeLine ++ encodeLine []

/-- The bytes of the body, with the line ends of the dialect. -/
def Sent (δ : Dialect) (b : Body) (bs : Bytes) : Prop :=
  ∃ front back, bs = front ++ back ∧ Chunk.Sent δ b.chunks front ∧
    Grammar.Sent δ (b.lastLine :: b.trailers ++ [[]]) back

structure WellFormed (limits : Limits) (b : Body) : Prop where
  chunks : ∀ c ∈ b.chunks, c.WellFormed limits
  last : ∃ numeral, IsSizeLine b.lastLine numeral ∧ numeralValue numeral = 0
  last_framed : Framed limits.chunkLine b.lastLine
  trailers : ∀ t ∈ b.trailers, t ≠ [] ∧ Framed limits.trailerLine t
  total_le : b.payload.length ≤ limits.body.toNat

end Body

end ChunkedTransfer.Grammar
