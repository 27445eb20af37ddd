import ChunkedTransfer.Phase.Marker
import ChunkedTransfer.Text.Quoted

/-!
# Framing errors

The ways in which the bytes of a body can break its framing. Each of them ends the decoding of that body.
-/

namespace ChunkedTransfer

inductive FramingError
  | emptySizeLine
  /-- The line does not have the form of a chunk-size line. -/
  | invalidSize (line : String)
  /-- The digits of the line give more than 64 bits. -/
  | sizeOverflow (line : String)
  | bareLineFeed
  /-- Payload of a chunk is not followed by the end of a line. -/
  | missingChunkTerminator
  | lineTooLong (size limit : Nat)
  | chunkTooLarge (size limit : UInt64)
  | bodyTooLarge (size limit : UInt64)
  /-- The transport ended in the given phase. -/
  | truncated (phase : PhaseMarker)
  deriving DecidableEq, Repr, Inhabited

namespace FramingError

def name : FramingError → String
  | emptySizeLine => "EmptySizeLine"
  | invalidSize _ => "InvalidSize"
  | sizeOverflow _ => "SizeOverflow"
  | bareLineFeed => "BareLineFeed"
  | missingChunkTerminator => "MissingChunkTerminator"
  | lineTooLong _ _ => "LineTooLong"
  | chunkTooLarge _ _ => "ChunkTooLarge"
  | bodyTooLarge _ _ => "BodyTooLarge"
  | truncated _ => "Truncated"

def message : FramingError → String
  | emptySizeLine => "an empty chunk-size line was detected"
  | invalidSize line => s!"\"{line}\" has an invalid chunk size"
  | sizeOverflow line => s!"\"{line}\" overflows a 64-bit chunk size"
  | bareLineFeed => "line terminated by a bare LF"
  | missingChunkTerminator => "expected CRLF after chunk data"
  | lineTooLong size limit => s!"line too long: {size} > {limit}"
  | chunkTooLarge size limit => s!"chunk too large: {size} > {limit}"
  | bodyTooLarge size limit => s!"body too large: {size} > {limit}"
  | truncated phase => s!"transport closed while reading {phase.label}"

/-- A name with its fields in braces. -/
private def withFields (name : String) (fields : List (String × String)) : String :=
  name ++ " \x7b " ++ ", ".intercalate (fields.map fun f => f.1 ++ ": " ++ f.2) ++ " \x7d"

/-- The error with all its fields, for a person who looks into a decoder. -/
def inspect (e : FramingError) : String :=
  match e with
  | emptySizeLine | bareLineFeed | missingChunkTerminator => e.name
  | invalidSize line | sizeOverflow line => withFields e.name [("line", Text.Quoted.encode line)]
  | lineTooLong size limit => withFields e.name [("size", toString size), ("limit", toString limit)]
  | chunkTooLarge size limit | bodyTooLarge size limit =>
    withFields e.name [("size", toString size), ("limit", toString limit)]
  | truncated phase => withFields e.name [("phase", phase.name)]

end FramingError

end ChunkedTransfer
