import ChunkedTransfer.Decoder.Describe
import ChunkedTransfer.Decoder.Drain
import ChunkedTransfer.Demo
import ChunkedTransfer.Main
import ChunkedTransfer.Transport.Faulty
import ChunkedTransfer.Decoder.Run
import ChunkedTransfer.Grammar.Body
import ChunkedTransfer.Proofs.Conservation
import ChunkedTransfer.Proofs.Fragmentation
import ChunkedTransfer.Proofs.RoundTrip
import ChunkedTransfer.Proofs.Soundness
import ChunkedTransfer.Proofs.Truncation
import ChunkedTransfer.Proofs.Resumption
import ChunkedTransfer.Proofs.Pipelining
import ChunkedTransfer.Proofs.Bounds
import ChunkedTransfer.Proofs.Phases
import ChunkedTransfer.Proofs.Accounting
import ChunkedTransfer.Proofs.Refusal
import ChunkedTransfer.Proofs.Transparency
import ChunkedTransfer.Proofs.Finality
import ChunkedTransfer.Proofs.Demand
import ChunkedTransfer.Proofs.Termination
import ChunkedTransfer.Proofs.Tolerance
import ChunkedTransfer.Proofs.WiderLimits
import ChunkedTransfer.Proofs.LineLength
import ChunkedTransfer.Proofs.Delivery
import ChunkedTransfer.Proofs.Pieces
import ChunkedTransfer.Proofs.RefusedLine
import ChunkedTransfer.Proofs.Numeral
import ChunkedTransfer.Proofs.SizeLineParts
import ChunkedTransfer.Proofs.Judgement
import ChunkedTransfer.Proofs.TrailerField
import ChunkedTransfer.Proofs.Span
import ChunkedTransfer.Proofs.Queue
import ChunkedTransfer.Proofs.Device
import ChunkedTransfer.Proofs.Refill
import ChunkedTransfer.Proofs.Replay
import ChunkedTransfer.Proofs.AuditTrail
import ChunkedTransfer.Proofs.OneLine
import ChunkedTransfer.Proofs.LogLines
