/-!
# Phase markers

The phases of a decoder by name, without what they carry.
-/

namespace ChunkedTransfer

inductive PhaseMarker
  | size
  | data
  | trailers
  | terminated
  | error
  deriving DecidableEq, Repr, Inhabited

namespace PhaseMarker

def name : PhaseMarker → String
  | size => "Size"
  | data => "Data"
  | trailers => "Trailers"
  | terminated => "Terminated"
  | error => "Error"

/-- What is read in the phase, as messages say it. -/
def label : PhaseMarker → String
  | size => "chunk size"
  | data => "chunk data"
  | trailers => "trailers"
  | terminated => "terminated"
  | error => "error"

end PhaseMarker

end ChunkedTransfer
