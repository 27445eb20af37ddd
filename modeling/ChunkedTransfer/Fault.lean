import ChunkedTransfer.FramingError

/-!
# Faults

Why an operation on a buffer, a source or a decoder gives no result. A fault is one of the transport, one of the
storage, or a framing error. Callers tell faults apart by their kind.
-/

namespace ChunkedTransfer

inductive FaultKind
  | notFound
  | permissionDenied
  | connectionRefused
  | connectionReset
  | connectionAborted
  | notConnected
  | brokenPipe
  | wouldBlock
  | invalidInput
  | invalidData
  | timedOut
  | interrupted
  | unexpectedEnd
  | writeZero
  | other
  deriving DecidableEq, Repr, Inhabited

/-- The message of a fault of which no more is known than its kind. -/
def FaultKind.text : FaultKind → String
  | notFound => "entity not found"
  | permissionDenied => "permission denied"
  | connectionRefused => "connection refused"
  | connectionReset => "connection reset"
  | connectionAborted => "connection aborted"
  | notConnected => "not connected"
  | brokenPipe => "broken pipe"
  | wouldBlock => "operation would block"
  | invalidInput => "invalid input parameter"
  | invalidData => "invalid data"
  | timedOut => "timed out"
  | interrupted => "operation interrupted"
  | unexpectedEnd => "unexpected end of file"
  | writeZero => "write zero"
  | other => "other error"

inductive Fault
  | plain (kind : FaultKind)
  | described (kind : FaultKind) (message : String)
  /-- A storage that holds nothing cannot be refilled, so the end of its transport would never be seen. -/
  | zeroCapacity
  /-- Not all bytes fit into the storage. -/
  | storageFull
  | framing (error : FramingError)
  deriving DecidableEq, Repr, Inhabited

namespace Fault

def kind : Fault → FaultKind
  | plain kind => kind
  | described kind _ => kind
  | zeroCapacity => .invalidInput
  | storageFull => .writeZero
  | framing (.truncated _) => .unexpectedEnd
  | framing _ => .invalidData

def message : Fault → String
  | plain kind => kind.text
  | described _ message => message
  | zeroCapacity => "cannot refill a zero capacity storage"
  | storageFull => "failed to write whole buffer"
  | framing error => error.message

def wouldBlock : Fault := plain .wouldBlock

end Fault

end ChunkedTransfer
