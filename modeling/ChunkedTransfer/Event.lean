import ChunkedTransfer.Progress
import ChunkedTransfer.Text.Utf8
import ChunkedTransfer.Transport.Basic

/-!
# Events

What happens while a source or a decoder is at work: the reads of the transport with their answers, the bytes taken
out of the buffer, the records written to the log, and the news that the stream is complete.
-/

namespace ChunkedTransfer

inductive Severity
  | trace
  | debug
  | warn
  deriving DecidableEq, Repr, Inhabited

def Severity.name : Severity → String
  | trace => "TRACE"
  | debug => "DEBUG"
  | warn => "WARN"

/-- A record of the log. -/
inductive Record
  | lastChunk
  | newChunk (size : UInt64)
  | chunkedBodyTerminated (decoded trailers : UInt64)
  | trailerDiscarded (key : Bytes)
  | malformedTrailerDiscarded (line : Bytes)
  | decodingFailed (marker : PhaseMarker) (error : FramingError)
  | refilled (count : Nat)
  | transportExhausted
  | streamEnded
  | progressMade (progress : Progress Nat)
  | readFailed (fault : Fault)
  deriving DecidableEq, Repr, Inhabited

namespace Record

def severity : Record → Severity
  | lastChunk | newChunk _ | refilled _ | progressMade _ | readFailed _ => .trace
  | chunkedBodyTerminated _ _ | trailerDiscarded _ | malformedTrailerDiscarded _ | transportExhausted
  | streamEnded => .debug
  | decodingFailed _ _ => .warn

private def progressText : Progress Nat → String
  | .read count => s!"Read({count})"
  | .pending => "Pending"
  | .ended => "End"

def text : Record → String
  | lastChunk => "last chunk, reading trailers"
  | newChunk size => s!"new chunk of {size} bytes"
  | chunkedBodyTerminated decoded trailers => s!"chunked body terminated: {decoded} bytes, {trailers} trailers"
  | trailerDiscarded key => "discarding trailer " ++ Text.Utf8.lossy key
  | malformedTrailerDiscarded line => "discarding malformed trailer " ++ Text.Quoted.encode (Text.Utf8.lossy line)
  | decodingFailed marker error => s!"chunked decoding failed in {marker.label} phase: {error.message}"
  | refilled count => s!"refilled {count} bytes"
  | transportExhausted => "transport exhausted"
  | streamEnded => "end of stream reached"
  | progressMade progress => "post read: " ++ progressText progress
  | readFailed fault => "post read failed: " ++ fault.message

end Record

inductive Event
  /-- The transport was read into the given room and gave the reply. -/
  | asked (room : Nat) (reply : Reply)
  /-- The bytes were taken out of the front of the buffer. -/
  | taken (bytes : Bytes)
  | logged (record : Record)
  /-- The listener was told that the stream is complete. -/
  | completed
  deriving DecidableEq, Repr, Inhabited

namespace Event

/-- The bytes that the transport handed over in an event. -/
def received : Event → Bytes
  | asked _ reply => reply.bytes
  | _ => []

/-- The bytes that were taken out of the buffer in an event. -/
def consumed : Event → Bytes
  | taken bytes => bytes
  | _ => []

def record? : Event → Option Record
  | logged record => some record
  | _ => none

def isAsked : Event → Bool
  | asked _ _ => true
  | _ => false

def isCompleted : Event → Bool
  | completed => true
  | _ => false

end Event

end ChunkedTransfer
