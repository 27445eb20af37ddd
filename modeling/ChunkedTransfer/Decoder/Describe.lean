import ChunkedTransfer.Buffer.Describe
import ChunkedTransfer.Decoder.Basic

/-!
# Descriptions of decoders
-/

namespace ChunkedTransfer.Decoder

/-- The description of the decoder and of its buffer, each line after the first behind `pad`. -/
def describe {τ : Type} (d : Decoder τ) (pad : String) : String :=
  Text.block pad "ChunkedDecoder" [
    ("phase", d.phase.inspect),
    ("remaining", toString d.remaining),
    ("decoded", toString d.decoded),
    ("trailers", toString d.trailers),
    ("line", d.line.state.name),
    ("state", d.source.flag.name),
    ("buffer", d.source.buffer.describe (pad ++ "  "))]

end ChunkedTransfer.Decoder
