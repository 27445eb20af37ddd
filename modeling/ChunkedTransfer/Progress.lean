/-!
# Progress

What one read of a decoder brings about.
-/

namespace ChunkedTransfer

inductive Progress (α : Type)
  /-- Payload was read. -/
  | read (payload : α)
  /-- Nothing can be read before the transport has more. -/
  | pending
  /-- The body is complete. -/
  | ended
  deriving DecidableEq, Repr, Inhabited

namespace Progress

def map {α β : Type} (f : α → β) : Progress α → Progress β
  | read a => read (f a)
  | pending => pending
  | ended => ended

end Progress

end ChunkedTransfer
