import ChunkedTransfer.Limits
import ChunkedTransfer.Line.Fill
import ChunkedTransfer.Phase.Basic
import ChunkedTransfer.SizeLine
import ChunkedTransfer.TrailerField

/-!
# Decoders

A decoder reads the payload of one chunked body out of a source. It stays in a phase until the source has given
what the phase asks for, and goes through as many phases as it can before it answers:

* a size line sets the number of payload bytes that remain in the chunk, and zero leads to the trailers;
* payload is handed over as it comes, from one chunk at a time, and an empty line must follow it;
* a trailer line is dropped, and an empty one is the end of the body.

Nothing is lost when the source runs dry: the decoder goes on from where it was.
-/

namespace ChunkedTransfer

structure Decoder (τ : Type) where
  source : Source τ
  line : Line := {}
  phase : Phase := .size
  /-- Payload bytes of the current chunk that were not handed over yet. -/
  remaining : UInt64 := 0
  /-- Payload bytes that were handed over. -/
  decoded : UInt64 := 0
  /-- Trailer lines that were dropped. -/
  trailers : UInt64 := 0
  limits : Limits := {}
  deriving DecidableEq, Repr

namespace Decoder

variable {τ α : Type}

/-- A decoder for the body that comes next in the source. -/
def ofSource (source : Source τ) (limits : Limits) : Decoder τ where
  source := source
  limits := limits

/-- A decoder for the body that follows the one of this decoder. -/
def next (d : Decoder τ) (limits : Limits) : Decoder τ := ofSource d.source limits

/-- What a part of the decoder comes to: `none` if the decoder is to go on. -/
abbrev StepOutcome (τ : Type) := Outcome (Decoder τ) (Option (Progress Bytes))

/-- Goes over into the failed phase. -/
def fail (d : Decoder τ) (error : FramingError) : Outcome (Decoder τ) α :=
  ⟨.error (.framing error), { d with phase := d.phase.fail error }, [.logged (.decodingFailed d.phase.marker error)]⟩

/-- The source has given nothing. Either there is more to wait for, or the body is truncated. -/
def stall (d : Decoder τ) : StepOutcome τ :=
  if d.source.isExhausted then d.fail (.truncated d.phase.marker) else ⟨.ok (some .pending), d, []⟩

/-- The line is a chunk-size line. -/
def acceptSizeLine (d : Decoder τ) : StepOutcome τ :=
  match (SizeLine.size d.line.content).bind (d.limits.accept d.decoded) with
  | .error e => d.fail e
  | .ok size =>
    if size = 0 then ⟨.ok none, { d with line := {}, remaining := size, phase := .trailers }, [.logged .lastChunk]⟩
    else ⟨.ok none, { d with line := {}, remaining := size, phase := .data }, [.logged (.newChunk size)]⟩

/-- The line is what follows the payload of a chunk. -/
def acceptTerminator (d : Decoder τ) : StepOutcome τ :=
  if d.line.content.isEmpty then ⟨.ok none, { d with line := {}, phase := .size }, []⟩
  else d.fail .missingChunkTerminator

/-- The record of a trailer line that is dropped. -/
def trailerRecord (δ : Dialect) (line : Bytes) : Record :=
  match TrailerField.parser δ line with
  | .ok (field, _) => .trailerDiscarded field.key
  | .error _ => .malformedTrailerDiscarded line

/-- The line is a trailer line, or the empty one after them. -/
def acceptTrailerLine (δ : Dialect) (d : Decoder τ) : StepOutcome τ :=
  if d.line.content.isEmpty then
    ⟨.ok none, { d with line := {}, phase := .terminated }, [.logged (.chunkedBodyTerminated d.decoded d.trailers)]⟩
  else
    ⟨.ok none, { d with line := {}, trailers := d.trailers + 1 }, [.logged (trailerRecord δ d.line.content)]⟩

variable [Transport τ]

/-- Fills the line, and goes on with `accept` once it is complete. -/
def withLine (δ : Dialect) (limit : Nat) (accept : Decoder τ → StepOutcome τ) (d : Decoder τ) : StepOutcome τ :=
  let r := d.line.fill δ limit d.source
  let d' := { d with line := r.state.1, source := r.state.2 }
  match r.result with
  | .error f => ⟨.error f, d', r.events⟩
  | .ok .dry => d'.stall.after r.events
  | .ok (.broken e) => (d'.fail e).after r.events
  | .ok .complete => (accept d').after r.events

/-- Hands over payload of the current chunk. -/
def handOver (d : Decoder τ) (room : Nat) : StepOutcome τ :=
  if room = 0 then ⟨.ok (some (.read [])), d, []⟩
  else
    let r := d.source.read (min room d.remaining.toNat)
    match r.result with
    | .error f => ⟨.error f, { d with source := r.state }, r.events⟩
    | .ok [] => (stall { d with source := r.state }).after r.events
    | .ok (b :: bs) =>
      let n := (b :: bs).length.toUInt64
      ⟨.ok (some (.read (b :: bs))),
        { d with source := r.state, remaining := d.remaining - n, decoded := d.decoded + n }, r.events⟩

/-- What the decoder does in its phase. -/
def step (δ : Dialect) (d : Decoder τ) (room : Nat) : StepOutcome τ :=
  match d.phase with
  | .size => d.withLine δ d.limits.chunkLine acceptSizeLine
  | .data => if 0 < d.remaining then d.handOver room else d.withLine δ d.limits.chunkLine acceptTerminator
  | .trailers => d.withLine δ d.limits.trailerLine (acceptTrailerLine δ)
  | .terminated => ⟨.ok (some .ended), d, []⟩
  | .failed _ e => ⟨.error (.framing e), d, []⟩

end Decoder

end ChunkedTransfer
