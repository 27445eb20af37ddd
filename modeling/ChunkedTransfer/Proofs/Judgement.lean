import ChunkedTransfer.Proofs.Delivery
import ChunkedTransfer.Proofs.Finality
import ChunkedTransfer.Proofs.Numeral

/-!
# The judgement of a size line

What a size line comes to depends on its bytes, on the limits and on the payload that was handed over before it. The
rules are looked at in a fixed order: whether there is anything in the line, its form, its value as a number of 64
bits, the limit of a chunk, and the limit of the body (`SizeLine.Judged`). Exactly one of them applies to a line, and
it is the one that a decoder goes by (`SizeLine.judged_iff`).

A read that has framed a size line fails with what the line is refused for, and else goes on behind it. It does not
come back to a size line after that: payload is handed over first, and behind the last chunk there are trailers
(`Decoder.BeyondSize`). So a read that leaves a decoder which has failed in front of a chunk has refused the line that
it has framed (`Decoder.size_line_judged`).
-/

namespace ChunkedTransfer

open Grammar (IsSizeLine Framed numeralValue)

namespace SizeLine

/-- What a size line comes to after so much payload: an error, or a size that is accepted. The value of the numeral is
a number of any length. -/
inductive Judged (limits : Limits) (decoded : UInt64) (line : Bytes) : Except FramingError UInt64 → Prop
  | empty (he : line = []) : Judged limits decoded line (.error .emptySizeLine)
  | malformed (he : line ≠ []) (hn : ∀ numeral, ¬ IsSizeLine line numeral) :
      Judged limits decoded line (.error (.invalidSize (Text.Utf8.lossy line)))
  | overflow {numeral : Bytes} (hn : IsSizeLine line numeral) (hv : 2 ^ 64 ≤ numeralValue numeral) :
      Judged limits decoded line (.error (.sizeOverflow (Text.Utf8.lossy line)))
  | chunkTooLarge {numeral : Bytes} {size : UInt64} (hn : IsSizeLine line numeral)
      (hv : numeralValue numeral = size.toNat) (hc : limits.chunk.toNat < numeralValue numeral) :
      Judged limits decoded line (.error (.chunkTooLarge size limits.chunk))
  /-- A sum that does not fit in 64 bits is taken for the largest number that does. -/
  | bodyTooLarge {numeral : Bytes} {total : UInt64} (hn : IsSizeLine line numeral)
      (hc : numeralValue numeral ≤ limits.chunk.toNat)
      (ht : total.toNat = min (decoded.toNat + numeralValue numeral) (2 ^ 64 - 1))
      (hb : limits.body.toNat < total.toNat) : Judged limits decoded line (.error (.bodyTooLarge total limits.body))
  | accepted {numeral : Bytes} {size : UInt64} (hn : IsSizeLine line numeral)
      (hv : numeralValue numeral = size.toNat) (hc : numeralValue numeral ≤ limits.chunk.toNat)
      (hb : min (decoded.toNat + numeralValue numeral) (2 ^ 64 - 1) ≤ limits.body.toNat) :
      Judged limits decoded line (.ok size)

private theorem size_of_malformed {line : Bytes} (he : line ≠ []) (hn : ∀ numeral, ¬ IsSizeLine line numeral) :
    size line = .error (.invalidSize (Text.Utf8.lossy line)) := by
  have hne : ¬ line.isEmpty := by simpa using he
  rw [size, if_neg hne]
  cases hd : digits line with
  | error e => rfl
  | ok r => exact absurd (digits_eq_ok_iff.1 hd).1 (hn r.1)

private theorem size_of_overflow {line numeral : Bytes} (hn : IsSizeLine line numeral)
    (hv : 2 ^ 64 ≤ numeralValue numeral) : size line = .error (.sizeOverflow (Text.Utf8.lossy line)) := by
  have hd := digits_eq_ok_iff.2 ⟨hn, rfl⟩
  have hs : sizeOfDigits? numeral = none := sizeOfDigits?_eq_none_iff.2 fun h => Nat.not_lt.2 hv h.2
  obtain ⟨before, after, tail, -, hne, -, -, rfl⟩ := isSizeLine_iff.1 hn
  rw [size, if_neg (by simp [hne.1])]
  simp only [hd, hs]

/-- The decoder goes by the rule that applies. -/
private theorem judge_of_judged {limits : Limits} {decoded : UInt64} {line : Bytes}
    {verdict : Except FramingError UInt64} (h : Judged limits decoded line verdict) :
    (size line).bind (limits.accept decoded) = verdict := by
  cases h with
  | empty he => rw [he]; rfl
  | malformed he hn => rw [size_of_malformed he hn]; rfl
  | overflow hn hv => rw [size_of_overflow hn hv]; rfl
  | @chunkTooLarge numeral size hn hv hc =>
    have hexceeds : limits.chunk < size := by rwa [UInt64.lt_iff_toNat_lt, ← hv]
    rw [size_eq_ok_iff.2 ⟨numeral, hn, hv⟩]
    exact if_pos hexceeds
  | @bodyTooLarge numeral total hn hc ht hb =>
    have hlt : numeralValue numeral < UInt64.size := Nat.lt_of_le_of_lt hc limits.chunk.toNat_lt
    have hv := (UInt64.toNat_ofNat_of_lt' hlt).symm
    have hwithin : ¬ limits.chunk < UInt64.ofNat (numeralValue numeral) := by
      rw [UInt64.lt_iff_toNat_lt, ← hv]
      exact Nat.not_lt.2 hc
    have htotal : Limits.saturatingAdd decoded (UInt64.ofNat (numeralValue numeral)) = total := by
      apply UInt64.toNat_inj.1
      rw [Limits.toNat_saturatingAdd, ← hv]
      exact ht.symm
    rw [size_eq_ok_iff.2 ⟨numeral, hn, hv⟩]
    simp only [Except.bind, Limits.accept, if_neg hwithin, htotal]
    rw [if_pos (UInt64.lt_iff_toNat_lt.2 hb)]
  | @accepted numeral size hn hv hc hb =>
    rw [size_eq_ok_iff.2 ⟨numeral, hn, hv⟩]
    rw [hv] at hc hb
    exact Limits.accept_eq_ok_iff.2 ⟨rfl, hc, hb⟩

private theorem exists_judged (limits : Limits) (decoded : UInt64) (line : Bytes) :
    ∃ verdict, Judged limits decoded line verdict := by
  by_cases he : line = []
  · exact ⟨_, .empty he⟩
  by_cases hn : ∃ numeral, IsSizeLine line numeral
  · obtain ⟨numeral, hn⟩ := hn
    by_cases hlt : numeralValue numeral < UInt64.size
    · have hv := (UInt64.toNat_ofNat_of_lt' hlt).symm
      by_cases hc : limits.chunk.toNat < numeralValue numeral
      · exact ⟨_, .chunkTooLarge hn hv hc⟩
      have hc := Nat.le_of_not_lt hc
      have ht := Limits.toNat_saturatingAdd decoded (UInt64.ofNat (numeralValue numeral))
      rw [← hv] at ht
      by_cases hb : limits.body.toNat < min (decoded.toNat + numeralValue numeral) (UInt64.size - 1)
      · exact ⟨_, .bodyTooLarge hn hc ht (ht ▸ hb)⟩
      · exact ⟨_, .accepted hn hv hc (Nat.le_of_not_lt hb)⟩
    · exact ⟨_, .overflow hn (Nat.le_of_not_lt hlt)⟩
  · exact ⟨_, .malformed he (not_exists.1 hn)⟩

/-- A line comes to what the decoder makes of it, and to nothing else. -/
theorem judged_iff {limits : Limits} {decoded : UInt64} {line : Bytes} {verdict : Except FramingError UInt64} :
    Judged limits decoded line verdict ↔ (size line).bind (limits.accept decoded) = verdict := by
  constructor
  · exact judge_of_judged
  · rintro rfl
    obtain ⟨verdict, h⟩ := exists_judged limits decoded line
    rwa [judge_of_judged h]

end SizeLine

namespace Decoder

variable {τ : Type}

/-! ### The line is judged -/

private theorem acceptSizeLine_of_refused {d : Decoder τ} {error : FramingError}
    (h : SizeLine.Judged d.limits d.decoded d.line.content (.error error)) : d.acceptSizeLine = d.fail error := by
  rw [acceptSizeLine, SizeLine.judged_iff.1 h]

private theorem acceptSizeLine_of_accepted {d : Decoder τ} {size : UInt64}
    (h : SizeLine.Judged d.limits d.decoded d.line.content (.ok size)) :
    d.acceptSizeLine.result = .ok none ∧ d.acceptSizeLine.state = { d with
      line := {}, remaining := size, phase := if size = 0 then .trailers else .data } := by
  rw [acceptSizeLine, SizeLine.judged_iff.1 h]
  by_cases hz : size = 0
  · simp only [if_pos hz, and_self]
  · simp only [if_neg hz, and_self]

/-! ### Behind a size line -/

/-- The decoder is where it can be behind a size line that was accepted, until the read has an answer. -/
inductive BeyondSize (d : Decoder τ) : Prop
  | payload (hp : d.phase = .data) (hr : 0 < d.remaining)
  | trailers (hp : d.phase = .trailers)
  | terminated (hp : d.phase = .terminated)

private theorem BeyondSize.isFailed_eq {d : Decoder τ} (h : d.BeyondSize) : d.phase.isFailed = false := by
  cases h with
  | payload hp => rw [hp]; rfl
  | trailers hp => rw [hp]; rfl
  | terminated hp => rw [hp]; rfl

private theorem BeyondSize.marker_ne {d : Decoder τ} (h : d.BeyondSize) : d.phase.marker ≠ .size := by
  cases h with
  | payload hp => simp [hp, Phase.marker]
  | trailers hp => simp [hp, Phase.marker]
  | terminated hp => simp [hp, Phase.marker]

/-! ### Failures -/

/-- If the decoder has failed, it was in this phase. -/
private def FailsIn (m : PhaseMarker) (r : StepOutcome τ) : Prop := ∀ m' e, r.state.phase = .failed m' e → m' = m

private theorem failsIn_of_running {m : PhaseMarker} {r : StepOutcome τ} (h : r.state.phase.isFailed = false) :
    FailsIn m r := by
  intro m' e hp
  simp [hp, Phase.isFailed] at h

private theorem failsIn_fail (d : Decoder τ) (error : FramingError) : FailsIn d.phase.marker (d.fail error) := by
  intro m' e hp
  simp only [fail, Phase.fail, Phase.failed.injEq] at hp
  exact hp.1.symm

private theorem failsIn_stall {d : Decoder τ} (h : d.phase.isFailed = false) : FailsIn d.phase.marker d.stall := by
  unfold stall
  split
  · exact d.failsIn_fail _
  · exact failsIn_of_running h

private theorem failsIn_acceptSizeLine (d : Decoder τ) : FailsIn d.phase.marker d.acceptSizeLine := by
  unfold acceptSizeLine
  split
  · exact d.failsIn_fail _
  · split <;> exact failsIn_of_running rfl

private theorem failsIn_acceptTerminator (d : Decoder τ) : FailsIn d.phase.marker d.acceptTerminator := by
  unfold acceptTerminator
  split
  · exact failsIn_of_running rfl
  · exact d.failsIn_fail _

private theorem failsIn_acceptTrailerLine (δ : Dialect) {d : Decoder τ} (h : d.phase.isFailed = false) :
    FailsIn d.phase.marker (d.acceptTrailerLine δ) := by
  unfold acceptTrailerLine
  split
  · exact failsIn_of_running rfl
  · exact failsIn_of_running h

variable [Transport τ]

private theorem failsIn_withLine (δ : Dialect) (limit : Nat) {accept : Decoder τ → StepOutcome τ} {d : Decoder τ}
    (h : d.phase.isFailed = false)
    (ha : ∀ line source, FailsIn d.phase.marker (accept { d with line, source })) :
    FailsIn d.phase.marker (d.withLine δ limit accept) := by
  let d' : Decoder τ := { d with
    line := (d.line.fill δ limit d.source).state.1, source := (d.line.fill δ limit d.source).state.2 }
  unfold withLine
  simp only
  split
  · exact failsIn_of_running h
  · exact failsIn_stall (d := d') h
  · exact failsIn_fail d' _
  · exact ha _ _

private theorem failsIn_handOver {d : Decoder τ} (h : d.phase.isFailed = false) (room : Nat) :
    FailsIn d.phase.marker (d.handOver room) := by
  unfold handOver
  split
  · exact failsIn_of_running h
  · simp only
    split
    · exact failsIn_of_running h
    · exact failsIn_stall (d := { d with source := (d.source.read (min room d.remaining.toNat)).state }) h
    · exact failsIn_of_running h

/-- A step fails in the phase in which it is taken. -/
private theorem failsIn_step (δ : Dialect) {d : Decoder τ} (h : d.phase.isFailed = false) (room : Nat) :
    FailsIn d.phase.marker (d.step δ room) := by
  unfold step
  split
  · exact failsIn_withLine δ _ h fun _ _ => failsIn_acceptSizeLine _
  · split
    · exact failsIn_handOver h room
    · exact failsIn_withLine δ _ h fun _ _ => failsIn_acceptTerminator _
  · exact failsIn_withLine δ _ h fun _ _ => failsIn_acceptTrailerLine δ h
  · exact failsIn_of_running h
  · exact failsIn_of_running h

/-! ### Steps from behind a size line -/

/-- A step from payload has an answer, and no step leads back from the trailers. -/
private theorem BeyondSize.step {δ : Dialect} {d : Decoder τ} {room : Nat} (h : d.BeyondSize) (hc : d.Coherent)
    (hn : (d.step δ room).result = .ok none) : (d.step δ room).state.BeyondSize := by
  cases h with
  | payload hp hr =>
    simp only [Decoder.step, hp, if_pos hr] at hn
    exact absurd hn (d.handOver_ne_none room)
  | trailers hp =>
    cases accepted_step hc hn with
    | sizeLine hp' => simp [hp] at hp'
    | terminator hp' => simp [hp] at hp'
    | trailerLine _ he =>
      rcases he with he | he
      · exact .trailers he
      · exact .terminated he
  | terminated hp => simp [Decoder.step, hp] at hn

/-- From behind a size line a read does not fail in front of a chunk. -/
private theorem BeyondSize.advance (δ : Dialect) (d : Decoder τ) (room : Nat) (h : d.BeyondSize) (hc : d.Coherent)
    (error : FramingError) : (d.advance δ room).state.phase ≠ .failed .size error := by
  have hstep {d : Decoder τ} (h : d.BeyondSize) : (d.step δ room).state.phase ≠ .failed .size error := by
    intro hp
    have hm : .size = d.phase.marker := failsIn_step δ h.isFailed_eq room .size error hp
    exact h.marker_ne hm.symm
  fun_induction Decoder.advance δ d room with
  | case1 d r f hr => exact hstep h
  | case2 d r p hr => exact hstep h
  | case3 d r hr ih => exact ih (h.step hc hr) (hc.step δ room)

/-! ### Inside a read -/

variable {δ : Dialect} {room : Nat}

private theorem Passes.trans {d e e' : Decoder τ} (h : Passes δ room d e) (h' : Passes δ room e e') :
    Passes δ room d e' := by
  induction h with
  | refl d => exact h'
  | step hr _ ih => exact .step hr (ih h')

/-- What holds of a decoder after every operation holds inside a read too. -/
private theorem Passes.coherent {d e : Decoder τ} (h : Passes δ room d e) (hc : d.Coherent) (hs : d.source.Consistent) :
    e.Coherent ∧ e.source.Consistent := by
  induction h with
  | refl d => exact ⟨hc, hs⟩
  | @step d e hr _ ih => exact ih (hc.step δ room) ((d.trace_step δ room).conserves hs).1

private theorem Passes.exists_advance_eq {d e : Decoder τ} (h : Passes δ room d e) :
    ∃ before, d.advance δ room = (e.advance δ room).after before := by
  induction h with
  | refl d => exact ⟨[], rfl⟩
  | @step d e hr _ ih =>
    obtain ⟨before, he⟩ := ih
    refine ⟨(d.step δ room).events ++ before, ?_⟩
    rw [advance_of_none hr, he]
    simp only [Outcome.after, List.append_assoc]

/-- A read is what it is from any place that it passes, with what it did before in front. -/
private theorem Passes.exists_read_eq {d e : Decoder τ} (h : Passes δ room d e) :
    ∃ before, d.read δ room = (e.read δ room).after before := by
  obtain ⟨before, he⟩ := h.exists_advance_eq
  refine ⟨before, ?_⟩
  simp only [read, he, Outcome.after, List.append_assoc]

/-! ### The step at a size line -/

/-- The decoder with the line that it has framed. -/
private def framed (δ : Dialect) (limit : Nat) (d : Decoder τ) : Decoder τ :=
  { d with line := (d.line.fill δ limit d.source).state.1, source := (d.line.fill δ limit d.source).state.2 }

/-- What is left after a size line was refused. The bytes of the line are all that was taken out of the buffer, and what
the transport has handed over beyond them is kept. -/
structure Refused (d : Decoder τ) (line : Bytes) (error : FramingError) (r : Outcome (Decoder τ) (Progress Bytes)) :
    Prop where
  result_eq : r.result = .error (.framing error)
  phase_eq : r.state.phase = .failed .size error
  decoded_eq : r.state.decoded = d.decoded
  remaining_eq : r.state.remaining = d.remaining
  trailers_eq : r.state.trailers = d.trailers
  consumed_eq : consumed r.events = line
  stream_eq : d.source.buffer.data ++ received r.events = line ++ r.state.source.buffer.data

section

variable {d : Decoder τ} (hp : d.phase = .size)
  (hf : (d.line.fill δ d.limits.chunkLine d.source).result = .ok .complete)

include hp hf

private theorem step_of_sizeLine (room : Nat) : d.step δ room =
    (d.framed δ d.limits.chunkLine).acceptSizeLine.after (d.line.fill δ d.limits.chunkLine d.source).events := by
  simp only [step, hp, withLine, hf, framed]

private theorem refused_read {error : FramingError} (hs : d.source.Consistent) (room : Nat)
    (h : SizeLine.Judged d.limits d.decoded (d.framed δ d.limits.chunkLine).line.content (.error error)) :
    d.Refused (consumed (d.line.fill δ d.limits.chunkLine d.source).events) error (d.read δ room) := by
  have hstep := step_of_sizeLine hp hf room
  rw [acceptSizeLine_of_refused h] at hstep
  have hadvance : d.advance δ room =
      ((d.framed δ d.limits.chunkLine).fail error).after (d.line.fill δ d.limits.chunkLine d.source).events := by
    have hresult : (d.step δ room).result = .error (.framing error) := by rw [hstep]; rfl
    rw [advance_of_error hresult, hstep]
    rfl
  have hconsumed : consumed (d.read δ room).events =
      consumed (d.line.fill δ d.limits.chunkLine d.source).events := by
    simp [read, hadvance, fail]
  have hconserves := ((d.trace_perform δ (.read room)).conserves hs).2
  have hmarker : (d.framed δ d.limits.chunkLine).phase.marker = .size := congrArg Phase.marker hp
  constructor
  case result_eq => rw [read, hadvance]; rfl
  case phase_eq =>
    rw [read, hadvance]
    exact congrArg (Phase.failed · error) hmarker
  case decoded_eq => rw [read, hadvance]; rfl
  case remaining_eq => rw [read, hadvance]; rfl
  case trailers_eq => rw [read, hadvance]; rfl
  case consumed_eq => exact hconsumed
  case stream_eq => rwa [← hconsumed]

private theorem step_of_accepted {size : UInt64} (room : Nat)
    (h : SizeLine.Judged d.limits d.decoded (d.framed δ d.limits.chunkLine).line.content (.ok size)) :
    (d.step δ room).result = .ok none ∧ (d.step δ room).state = { d with
      line := {}
      source := (d.line.fill δ d.limits.chunkLine d.source).state.2
      remaining := size
      phase := if size = 0 then .trailers else .data } := by
  obtain ⟨hresult, hstate⟩ := acceptSizeLine_of_accepted (d := d.framed δ d.limits.chunkLine) h
  rw [step_of_sizeLine hp hf room, Outcome.result_after, Outcome.state_after, hresult, hstate]
  exact ⟨rfl, rfl⟩

/-- A read that goes on behind a size line does not fail in front of a chunk. -/
private theorem phase_advance_of_accepted {size : UInt64} (hc : d.Coherent) (room : Nat)
    (h : SizeLine.Judged d.limits d.decoded (d.framed δ d.limits.chunkLine).line.content (.ok size))
    (error : FramingError) : (d.advance δ room).state.phase ≠ .failed .size error := by
  obtain ⟨hresult, hstate⟩ := step_of_accepted hp hf room h
  have hbeyond : (d.step δ room).state.BeyondSize := by
    rw [hstate]
    by_cases hz : size = 0
    · exact .trailers (if_pos hz)
    · exact .payload (if_neg hz) (UInt64.pos_iff_ne_zero.2 hz)
  rw [advance_of_none hresult, Outcome.state_after]
  exact hbeyond.advance δ _ room (hc.step δ room) error

end

/-- Every size line gets the judgement that is due to it. Take any decoder that a run comes to, also inside a read, and
let it frame a size line within the limit. Then exactly one judgement applies to the line. If it is an error, the read
fails with it: nothing behind the line is taken, and the counters stay what they were. If it is a size, the read goes
on with this size and an empty line, in front of payload, or of the trailers if the size is zero. A read that leaves a
decoder which has failed in front of a chunk has refused the line, and so has one that gives the error of a size line,
unless the error is what the transport has answered to a decoder that has not failed. -/
theorem size_line_judged (δ : Dialect) (limits : Limits) (b : Buffer) (t : τ) (ops : List Operation) (room : Nat) :
    let d := (ofSource (.ofBuffer b t) limits).finish δ ops
    ∀ e : Decoder τ, Passes δ room d e → e.phase = .size →
      let framing := e.line.fill δ e.limits.chunkLine e.source
      let line := framing.state.1.content
      let r := e.read δ room
      framing.result = .ok .complete →
      (∃ before, d.read δ room = r.after before) ∧
        (Framed e.limits.chunkLine line ∧ Grammar.Sent δ [line] (e.line.content ++ consumed framing.events)) ∧
        (∃! verdict, SizeLine.Judged e.limits e.decoded line verdict) ∧
        (∀ error, SizeLine.Judged e.limits e.decoded line (.error error) →
          e.Refused (consumed framing.events) error r) ∧
        (∀ size, SizeLine.Judged e.limits e.decoded line (.ok size) →
          Passes δ room d { e with
            line := {}
            source := framing.state.2
            remaining := size
            phase := if size = 0 then .trailers else .data }) ∧
        (∀ error, r.state.phase = .failed .size error → SizeLine.Judged e.limits e.decoded line (.error error)) ∧
        ∀ error : FramingError, error.isOfSizeLine = true → r.result = .error (.framing error) →
          SizeLine.Judged e.limits e.decoded line (.error error) ∨
            r.state.phase.isFailed = false ∧ lastReply r.events = some (.fault (.framing error)) := by
  intro d e hpasses hp framing line r hf
  have hd : d.Coherent := (coherent_ofSource _ limits).finish δ ops
  have hds : d.source.Consistent :=
    (((ofSource (.ofBuffer b t) limits).trace_run δ ops).conserves (Source.consistent_ofBuffer b t)).1
  obtain ⟨hc, hs⟩ := hpasses.coherent hd hds
  have hfailed (error : FramingError) (h : r.state.phase = .failed .size error) :
      SizeLine.Judged e.limits e.decoded line (.error error) := by
    obtain ⟨verdict, hv⟩ := SizeLine.exists_judged e.limits e.decoded line
    cases verdict with
    | ok size => exact absurd h (phase_advance_of_accepted hp hf hc room hv error)
    | error error' =>
      have hphase := (refused_read hp hf hs room hv).phase_eq
      rw [h, Phase.failed.injEq] at hphase
      rwa [hphase.2]
  refine ⟨hpasses.exists_read_eq, Line.sent_fill (hc.line_isOpen (by rw [hp]; rfl)) hf, ?_, ?_, ?_, hfailed, ?_⟩
  · exact ⟨_, SizeLine.judged_iff.2 rfl, fun verdict h => (SizeLine.judged_iff.1 h).symm⟩
  · intro error h
    exact refused_read hp hf hs room h
  · intro size h
    obtain ⟨hresult, hstate⟩ := step_of_accepted hp hf room h
    refine hpasses.trans (.step hresult ?_)
    rw [hstate]
    exact .refl _
  · intro error he hr
    rcases read_of_framing hr with ⟨m, hm⟩ | htransport
    · have hr' : r.state.Coherent := (Coherent.advance δ e room hc).withSource _
      obtain rfl := (hr'.fits hm).of_sizeLine he
      exact .inl (hfailed error hm)
    · exact .inr htransport

/-- Two chunks, where the body may have one byte less than 64 bits can say. The first has one byte. The second has the
largest size, and its sum with the payload does not fit. The blank and the byte behind the size line stay where they
are. -/
theorem size_line_judged_of_two_chunks :
    let limits : Limits := { body := maxSize - 1 }
    let bs : Bytes := [49, 13, 10, 97, 13, 10] ++ List.replicate 16 102 ++ [13, 10, 32, 98]
    let start := ofSource (.ofBuffer (.withReceived bs bs.length) (⟨[], false⟩ : Fragments)) limits
    let d := start.finish .strict [.read 4]
    let e := (d.step .strict 4).state
    Passes .strict 4 start { start with
      line := {}
      source := (Line.fill .strict 1024 {} start.source).state.2
      remaining := 1
      phase := .data } ∧
    (d.read .strict 4).result = .error (.framing (.bodyTooLarge maxSize (maxSize - 1))) ∧
      (e.read .strict 4).state.phase = .failed .size (.bodyTooLarge maxSize (maxSize - 1)) ∧
      (e.read .strict 4).state.decoded = 1 ∧ (e.read .strict 4).state.source.buffer.data = [32, 98] := by
  intro limits bs start d e
  constructor
  · obtain ⟨-, -, -, -, haccepted, -⟩ :=
      size_line_judged .strict limits (.withReceived bs bs.length) (⟨[], false⟩ : Fragments) [] 4 start (.refl start)
        rfl (by decide +kernel)
    exact haccepted 1 (SizeLine.judged_iff.2 (by decide +kernel))
  · obtain ⟨⟨before, hread⟩, -, -, hrefused, -⟩ :=
      size_line_judged .strict limits (.withReceived bs bs.length) (⟨[], false⟩ : Fragments) [.read 4] 4 e
        (.step (by decide +kernel) (.refl e)) (by decide +kernel) (by decide +kernel)
    have h := hrefused (.bodyTooLarge maxSize (maxSize - 1)) (SizeLine.judged_iff.2 (by decide +kernel))
    refine ⟨?_, h.phase_eq, ?_, by decide +kernel⟩
    · exact (congrArg Outcome.result hread).trans h.result_eq
    · rw [h.decoded_eq]
      decide +kernel

end Decoder

end ChunkedTransfer
