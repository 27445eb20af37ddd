import ChunkedTransfer.FramingError

/-!
# Phases

Where a decoder is in the body it reads. A body is chunks, each a size line and its data, then trailers after the
last size line:

```txt
 size ──> data ──> size ──> … ──> size ──> trailers ──> terminated
```

A framing error in any of these leads to `failed`, which keeps the error and the phase where it was met.
-/

namespace ChunkedTransfer

inductive Phase
  /-- A chunk-size line is read. -/
  | size
  /-- The payload of a chunk is read, and then the end of line that follows it. -/
  | data
  /-- Trailer lines are read up to the blank one. -/
  | trailers
  | terminated
  | failed (marker : PhaseMarker) (error : FramingError)
  deriving DecidableEq, Repr, Inhabited

namespace Phase

def marker : Phase → PhaseMarker
  | size => .size
  | data => .data
  | trailers => .trailers
  | terminated => .terminated
  | failed _ _ => .error

/-- The phase after an error is met in the phase `p`. -/
def fail (p : Phase) (error : FramingError) : Phase := failed p.marker error

def isFailed : Phase → Bool
  | failed _ _ => true
  | _ => false

/-- The phase with all that it carries, for a person who looks into a decoder. -/
def inspect : Phase → String
  | failed marker error => "Error \x7b marker: " ++ marker.name ++ ", kind: " ++ error.inspect ++ " \x7d"
  | p => p.marker.name

end Phase

end ChunkedTransfer
