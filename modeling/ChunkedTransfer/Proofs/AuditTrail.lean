import ChunkedTransfer.Proofs.Accounting
import ChunkedTransfer.Proofs.Conservation
import ChunkedTransfer.Proofs.Resumption

/-!
# The log as an audit trail

What has become of a decoder can be read off the log. An answer of the transport that brings bytes, or is the end, is
logged where it is given, and no other answer is (`Booked`). A trailer line is logged where it is counted, and how the
body has ended is logged once, where it does (`Decoder.Recorded`). This holds of every step, and so the log of a whole
run is an account of it (`Decoder.audit_trail`).

The counters of a decoder have 64 bits. They are exact as long as the stream is not longer than they can count, since
every byte of payload and every trailer line is paid for with a byte that was taken from the source.
-/

namespace ChunkedTransfer

/-! ### Records of a log -/

/-- The records that were written to the log. -/
def records (es : List Event) : List Record := es.filterMap Event.record?

@[simp] theorem records_append (es es' : List Event) : records (es ++ es') = records es ++ records es' :=
  List.filterMap_append

@[simp] theorem records_logged (r : Record) : records [.logged r] = [r] := rfl

@[simp] theorem records_asked (room : Nat) (rs : List Reply) : records (rs.map (Event.asked room)) = [] := by
  induction rs with
  | nil => rfl
  | cons r rs ih => exact ih

namespace Record

/-- The record tells how a read of the transport went. -/
def isOfTransport : Record → Bool
  | refilled _ | transportExhausted => true
  | _ => false

/-- The record tells that a trailer line was dropped. -/
def isDiscard : Record → Bool
  | trailerDiscarded _ | malformedTrailerDiscarded _ => true
  | _ => false

/-- The record tells that the body is complete. -/
def isTermination : Record → Bool
  | chunkedBodyTerminated _ _ => true
  | _ => false

/-- The record tells how the body has ended. -/
def isClosing (r : Record) : Bool := r.severity = .warn || r.isTermination

/-- The number of bytes that came in, as the record tells it. -/
def refillCount : Record → Nat
  | refilled count => count
  | _ => 0

private theorem isClosing_of_isOfTransport {r : Record} (h : r.isOfTransport = true) : r.isClosing = false := by
  cases r <;> simp [isOfTransport] at h <;> rfl

private theorem isDiscard_of_isOfTransport {r : Record} (h : r.isOfTransport = true) : r.isDiscard = false := by
  cases r <;> simp [isOfTransport] at h <;> rfl

private theorem isOfTransport_of_isDiscard {r : Record} (h : r.isDiscard = true) : r.isOfTransport = false := by
  cases r <;> simp [isDiscard] at h <;> rfl

private theorem isClosing_of_isDiscard {r : Record} (h : r.isDiscard = true) : r.isClosing = false := by
  cases r <;> simp [isDiscard] at h <;> rfl

private theorem refillCount_of_not_isOfTransport {r : Record} (h : r.isOfTransport = false) : r.refillCount = 0 := by
  cases r <;> simp [isOfTransport] at h <;> rfl

end Record

/-- What the log tells of the reads of the transport. -/
def transportRecords (es : List Event) : List Record := (records es).filter Record.isOfTransport

/-- What the log tells of how the body has ended. -/
def closings (es : List Event) : List Record := (records es).filter Record.isClosing

/-- The number of trailer lines that were dropped, as the log tells it. -/
def discards (es : List Event) : Nat := (records es).countP Record.isDiscard

/-- The number of bytes that came in, as the log tells it. -/
def refillTotal (es : List Event) : Nat := ((records es).map Record.refillCount).sum

@[simp] theorem transportRecords_append (es es' : List Event) :
    transportRecords (es ++ es') = transportRecords es ++ transportRecords es' := by simp [transportRecords]

@[simp] theorem closings_append (es es' : List Event) : closings (es ++ es') = closings es ++ closings es' := by
  simp [closings]

@[simp] theorem discards_append (es es' : List Event) : discards (es ++ es') = discards es + discards es' := by
  simp [discards]

/-- The warnings of a log are among what it tells of how the body has ended, and so is that the body is complete. -/
private theorem filter_closings (es : List Event) {p : Record → Bool} (hp : ∀ r, p r = true → r.isClosing = true) :
    (closings es).filter p = (records es).filter p := by
  rw [closings, List.filter_filter]
  refine List.filter_congr fun r _ => ?_
  cases hr : p r with
  | true => rw [hp r hr]; rfl
  | false => rfl

private theorem isOfTransport_of_mem_records {es : List Event} (h : ∀ e ∈ es, e.OfSource) :
    ∀ r ∈ records es, r.isOfTransport = true := by
  intro r hr
  obtain ⟨e, he, hrecord⟩ := List.mem_filterMap.1 hr
  cases h e he with
  | asked => simp [Event.record?] at hrecord
  | taken => simp [Event.record?] at hrecord
  | refilled =>
    obtain rfl : _ = r := by simpa [Event.record?] using hrecord
    rfl
  | transportExhausted =>
    obtain rfl : _ = r := by simpa [Event.record?] using hrecord
    rfl

/-- A source does not tell how a body has ended. -/
private theorem closings_eq_nil {es : List Event} (h : ∀ e ∈ es, e.OfSource) : closings es = [] := by
  refine List.filter_eq_nil_iff.2 fun r hr => ?_
  simp [Record.isClosing_of_isOfTransport (isOfTransport_of_mem_records h r hr)]

private theorem discards_eq_zero {es : List Event} (h : ∀ e ∈ es, e.OfSource) : discards es = 0 := by
  refine List.countP_eq_zero.2 fun r hr => ?_
  simp [Record.isDiscard_of_isOfTransport (isOfTransport_of_mem_records h r hr)]

/-! ### Reads of the transport -/

/-- What is logged of an answer of the transport. -/
def Reply.record? : Reply → Option Record
  | data [] => some .transportExhausted
  | data (b :: bs) => some (.refilled (b :: bs).length)
  | fault _ => none

/-- What the log tells of the transport is what the transport has answered. -/
def Booked (es : List Event) : Prop := transportRecords es = (replies es).filterMap Reply.record?

private theorem booked_nil : Booked [] := rfl

private theorem booked_taken (bs : Bytes) : Booked [.taken bs] := rfl

private theorem booked_logged {r : Record} (h : r.isOfTransport = false) : Booked [.logged r] := by
  simp [Booked, transportRecords, h]

private theorem Booked.append {es es' : List Event} (h : Booked es) (h' : Booked es') : Booked (es ++ es') := by
  unfold Booked at h h' ⊢
  rw [transportRecords_append, h, h', replies_append, List.filterMap_append]

/-- Nothing but a read of the transport is logged with a number of bytes that came in. -/
private theorem refillTotal_eq_sum (es : List Event) :
    refillTotal es = ((transportRecords es).map Record.refillCount).sum := by
  unfold refillTotal transportRecords
  induction records es with
  | nil => rfl
  | cons r rs ih =>
    cases hr : r.isOfTransport with
    | true => simp [hr, ih]
    | false => simp [hr, ih, Record.refillCount_of_not_isOfTransport hr]

/-- The refills in the log amount to the bytes that came in. -/
private theorem Booked.refillTotal_eq {es : List Event} (h : Booked es) : refillTotal es = (received es).length := by
  rw [refillTotal_eq_sum, h, received_eq]
  induction replies es with
  | nil => rfl
  | cons r rs ih =>
    rw [List.flatMap_cons, List.length_append, ← ih]
    match r with
    | .data [] => simp [Reply.record?, Reply.bytes, Record.refillCount]
    | .data (b :: bs) => simp [Reply.record?, Reply.bytes, Record.refillCount]
    | .fault f => simp [List.filterMap_cons, Reply.record?, Reply.bytes]

/-- The end of the transport is in the log as often as it was answered. -/
private theorem Booked.count_transportExhausted {es : List Event} (h : Booked es) :
    (records es).count .transportExhausted = (replies es).count .ended := by
  have hfilter : (records es).count .transportExhausted = (transportRecords es).count .transportExhausted :=
    (List.count_filter rfl).symm
  rw [hfilter, h]
  induction replies es with
  | nil => rfl
  | cons r rs ih =>
    match r with
    | .data [] => simp [Reply.record?, Reply.ended, ih]
    | .data (b :: bs) => simp [Reply.record?, Reply.ended, ih]
    | .fault f => simpa [List.filterMap_cons, Reply.record?, Reply.ended] using ih

namespace Source

variable {τ : Type} [Transport τ]

private theorem booked_receive (s : Source τ) : Booked s.receive.events := by
  -- Of the interruptions in front of the last answer nothing is logged.
  have hreplies : (Transport.poll s.transport s.buffer.space).replies.filterMap Reply.record? =
      (Transport.poll s.transport s.buffer.space).reply.record?.toList := by
    have hinterruptions : (Transport.poll s.transport s.buffer.space).interruptions.filterMap Reply.record? = [] := by
      refine List.filterMap_eq_nil_iff.2 fun r hr => ?_
      have hi := Transport.isInterrupted_of_mem_interruptions _ _ r hr
      cases r with
      | data bs => simp [Reply.isInterrupted] at hi
      | fault f => rfl
    rw [Polled.replies, List.filterMap_append, hinterruptions, List.nil_append, List.filterMap_cons]
    cases (Transport.poll s.transport s.buffer.space).reply.record? <;> rfl
  unfold Booked
  rw [replies_receive, hreplies]
  unfold receive
  simp only
  split
  · rename_i h
    simp [h, transportRecords, Reply.record?, Record.isOfTransport]
  · rename_i b bs h
    simp [h, transportRecords, Reply.record?, Record.isOfTransport]
  · rename_i f h
    simp [h, transportRecords, Reply.record?]

private theorem booked_refill (s : Source τ) : Booked s.refill.events := by
  unfold refill
  split
  · exact booked_nil
  · split
    · exact booked_nil
    · split
      · exact booked_nil
      · exact s.recycle.booked_receive

private theorem booked_replenish (s : Source τ) : Booked s.replenish.events := by
  unfold replenish Outcome.andThen
  split
  · exact booked_nil
  · split
    · exact (booked_refill _).append booked_nil
    · exact booked_refill _

private theorem booked_read (s : Source τ) (room : Nat) : Booked (s.read room).events := by
  unfold read Outcome.andThen
  split
  · exact booked_nil
  · split
    · refine s.booked_replenish.append ?_
      simp only
      split
      · exact booked_nil
      · exact booked_taken _
    · exact s.booked_replenish

private theorem count_ended_receive {s : Source τ} (hx : s.exhausted = false) :
    (replies s.receive.events).count .ended = s.receive.state.exhausted.toNat := by
  have hinterruptions : .ended ∉ (Transport.poll s.transport s.buffer.space).interruptions := by
    intro h
    have hi := Transport.isInterrupted_of_mem_interruptions _ _ _ h
    simp [Reply.ended, Reply.isInterrupted] at hi
  rw [replies_receive, Polled.replies, List.count_append, List.count_eq_zero_of_not_mem hinterruptions, Nat.zero_add]
  unfold receive
  simp only
  split
  · rename_i h
    simp [h, Reply.ended]
  · rename_i b bs h
    simp [h, Reply.ended, hx]
  · rename_i f h
    simp [h, Reply.ended, hx]

/-- The end of the transport is answered once, and then the source has noted it. -/
private theorem Trace.count_ended {s s' : Source τ} {es : List Event} (h : Trace s es s') :
    s.exhausted.toNat + (replies es).count .ended = s'.exhausted.toNat := by
  induction h with
  | refl s => rfl
  | trans _ _ ih ih' => rw [replies_append, List.count_append, ← ih', ← ih, Nat.add_assoc]
  | recycle s => rw [exhausted_recycle]; rfl
  | clear => rfl
  | receive hx => rw [hx, count_ended_receive hx, Bool.toNat_false, Nat.zero_add]
  | take s n => rw [exhausted_noteUsedUp]; rfl
  | noteUsedUp s => rw [exhausted_noteUsedUp]; rfl
  | markDraining s => rfl
  | report s result => rw [replies_report, exhausted_report]; rfl
  | log s r => rfl

end Source

private theorem Line.booked_fill {τ : Type} [Transport τ] (δ : Dialect) (limit : Nat) (l : Line) (s : Source τ) :
    Booked (l.fill δ limit s).events := by
  have hturn (l : Line) (s : Source τ) : Booked (turnEvents δ limit l s) :=
    s.booked_replenish.append (booked_taken _)
  fun_induction fill δ limit l s with
  | case1 l s r f hr => exact s.booked_replenish
  | case2 l s r hr => exact s.booked_replenish
  | case3 l s r n hr a s' events e ha => exact hturn l s
  | case4 l s r n hr a s' events ha => exact hturn l s
  | case5 l s r n hr a s' events state ha hstate ih => exact (hturn l s).append ih

namespace Decoder

variable {τ : Type}

/-- What the log tells, in the end, of a body whose decoder is in this state. -/
def closing (d : Decoder τ) : List Record :=
  match d.phase with
  | .size | .data | .trailers => []
  | .terminated => [.chunkedBodyTerminated d.decoded d.trailers]
  | .failed marker error => [.decodingFailed marker error]

/-- From one decoder to the other the log tells what has happened. How the body has ended is logged if it has ended in
between, the trailer lines are counted that were logged, and the answers of the transport are logged. The payload and
the trailer lines are paid for with so many bytes. -/
structure Recorded (d : Decoder τ) (es : List Event) (d' : Decoder τ) (payload : Bytes) (paid : Nat) : Prop where
  closing_eq : d.closing ++ closings es = d'.closing
  trailers_eq : d'.trailers = d.trailers + (discards es).toUInt64
  booked : Booked es
  le_paid : payload.length + discards es ≤ paid

variable {d d' d'' : Decoder τ} {es es' : List Event}

private theorem Recorded.trans {payload payload' : Bytes} {paid paid' : Nat} (h : d.Recorded es d' payload paid)
    (h' : d'.Recorded es' d'' payload' paid') : d.Recorded (es ++ es') d'' (payload ++ payload') (paid + paid') := by
  obtain ⟨hc, ht, hb, hp⟩ := h
  obtain ⟨hc', ht', hb', hp'⟩ := h'
  constructor
  · rw [closings_append, ← List.append_assoc, hc, hc']
  · rw [ht', ht, discards_append, UInt64.add_assoc]
    exact congrArg _ (UInt64.ofNat_add _ _).symm
  · exact hb.append hb'
  · rw [List.length_append, discards_append]
    omega

private theorem Recorded.mono {payload : Bytes} {paid paid' : Nat} (h : d.Recorded es d' payload paid)
    (hp : paid ≤ paid') : d.Recorded es d' payload paid' :=
  ⟨h.closing_eq, h.trailers_eq, h.booked, Nat.le_trans h.le_paid hp⟩

/-- Events that tell nothing of the body go with a decoder that is where it was. -/
private theorem recorded_of_quiet {payload : Bytes} {paid : Nat} (hn : closings es = []) (hd : discards es = 0)
    (hb : Booked es) (hc : d'.closing = d.closing) (ht : d'.trailers = d.trailers) (hp : payload.length ≤ paid) :
    d.Recorded es d' payload paid := by
  constructor
  · rw [hn, hc, List.append_nil]
  · rw [hd, ht]
    exact (UInt64.add_zero _).symm
  · exact hb
  · rw [hd]
    exact hp

/-- What a source does by itself is no news of the body. -/
private theorem recorded_of_source (payload : Bytes) (he : ∀ e ∈ es, e.OfSource) (hb : Booked es)
    (hc : d'.closing = d.closing) (ht : d'.trailers = d.trailers) (hp : payload.length ≤ (consumed es).length) :
    d.Recorded es d' payload (consumed es).length :=
  recorded_of_quiet (closings_eq_nil he) (discards_eq_zero he) hb hc ht hp

/-- What follows on the work of the source is paid for with the bytes that were taken from it. -/
private theorem Recorded.after_source {payload : Bytes} {paid : Nat} (h : d.Recorded es' d' payload paid)
    (he : ∀ e ∈ es, e.OfSource) (hb : Booked es) (hp : paid ≤ (consumed es).length) :
    d.Recorded (es ++ es') d' payload (consumed (es ++ es')).length := by
  obtain ⟨hc, ht, hb', hp'⟩ := h
  constructor
  · rw [closings_append, closings_eq_nil he, List.nil_append, hc]
  · rw [discards_append, discards_eq_zero he, Nat.zero_add, ht]
  · exact hb.append hb'
  · rw [discards_append, discards_eq_zero he, consumed_append, List.length_append]
    omega

private theorem closing_of_isReading (h : d.phase.marker.IsReading) : d.closing = [] := by
  unfold closing
  cases hp : d.phase <;> simp [hp, Phase.marker, PhaseMarker.IsReading] at h ⊢

private theorem Recorded.closings_eq {payload : Bytes} {paid : Nat} (h : d.Recorded es d' payload paid)
    (hm : d.phase.marker.IsReading) : closings es = d'.closing := by
  rw [← h.closing_eq, closing_of_isReading hm, List.nil_append]

/-- What is logged without a byte tells at most how the body has ended. -/
private theorem recorded_of_unpaid (hm : d.phase.marker.IsReading) (hc : closings es = d'.closing)
    (ht : d'.trailers = d.trailers) (hb : Booked es) (hd : discards es = 0) : d.Recorded es d' [] 0 := by
  constructor
  · rw [closing_of_isReading hm, hc, List.nil_append]
  · rw [hd, ht]
    exact (UInt64.add_zero _).symm
  · exact hb
  · rw [hd]
    exact Nat.le_refl 0

/-- What a read reports of its result has no part in the account. -/
private theorem recorded_report (d : Decoder τ) (result : Except Fault (Progress Nat)) :
    let s := d.source.report result
    d.Recorded s.2 { d with source := s.1 } [] 0 := by
  intro s
  have hunrelated : closings s.2 = [] ∧ discards s.2 = 0 ∧ transportRecords s.2 = [] := by
    simp only [s, Source.report]
    split
    · split
      · exact ⟨rfl, rfl, rfl⟩
      · exact ⟨rfl, rfl, rfl⟩
    · exact ⟨rfl, rfl, rfl⟩
    · exact ⟨rfl, rfl, rfl⟩
  obtain ⟨hclosings, hdiscards, htransport⟩ := hunrelated
  have hb : Booked s.2 := by
    rw [Booked, htransport, Source.replies_report]
    rfl
  exact recorded_of_quiet hclosings hdiscards hb rfl rfl (Nat.le_refl 0)

/-! ### Lines -/

private theorem recorded_fail (hm : d.phase.marker.IsReading) (line : Line) (source : Source τ) (e : FramingError) :
    let r : StepOutcome τ := fail { d with line, source } e
    d.Recorded r.events r.state (payloadOf r.result) 0 :=
  recorded_of_unpaid hm rfl rfl (booked_logged rfl) rfl

private theorem recorded_stall (hm : d.phase.marker.IsReading) (line : Line) (source : Source τ) :
    let r := stall { d with line, source }
    d.Recorded r.events r.state (payloadOf r.result) 0 := by
  intro r
  simp only [r, stall]
  split
  · exact recorded_fail hm line source _
  · exact recorded_of_unpaid hm (closing_of_isReading hm).symm rfl booked_nil rfl

private theorem recorded_acceptSizeLine (hm : d.phase.marker.IsReading) (line : Line) (source : Source τ) :
    let r := acceptSizeLine { d with line, source }
    d.Recorded r.events r.state (payloadOf r.result) 0 := by
  intro r
  simp only [r, acceptSizeLine]
  split
  · exact recorded_fail hm line source _
  · split
    · exact recorded_of_unpaid hm rfl rfl (booked_logged rfl) rfl
    · exact recorded_of_unpaid hm rfl rfl (booked_logged rfl) rfl

private theorem recorded_acceptTerminator (hm : d.phase.marker.IsReading) (line : Line) (source : Source τ) :
    let r := acceptTerminator { d with line, source }
    d.Recorded r.events r.state (payloadOf r.result) 0 := by
  intro r
  simp only [r, acceptTerminator]
  split
  · exact recorded_of_unpaid hm rfl rfl booked_nil rfl
  · exact recorded_fail hm line source _

private theorem isDiscard_trailerRecord (δ : Dialect) (line : Bytes) : (trailerRecord δ line).isDiscard = true := by
  unfold trailerRecord
  split <;> rfl

/-- A trailer line is paid for with one byte, which is the end of the line if it has no other. -/
private theorem recorded_acceptTrailerLine (δ : Dialect) (hm : d.phase.marker.IsReading) (line : Line)
    (source : Source τ) :
    let r := acceptTrailerLine δ { d with line, source }
    d.Recorded r.events r.state (payloadOf r.result) 1 := by
  intro r
  simp only [r, acceptTrailerLine]
  split
  · have hended : d.Recorded [.logged (.chunkedBodyTerminated d.decoded d.trailers)]
        { d with line := {}, source, phase := .terminated } [] 0 :=
      recorded_of_unpaid hm rfl rfl (booked_logged rfl) rfl
    exact hended.mono (Nat.zero_le 1)
  · have hdiscard := isDiscard_trailerRecord δ line.content
    have hdiscards : discards [.logged (trailerRecord δ line.content)] = 1 := by simp [discards, hdiscard]
    have hclosings : closings [.logged (trailerRecord δ line.content)] = [] := by
      simp [closings, Record.isClosing_of_isDiscard hdiscard]
    constructor
    · rw [closing_of_isReading hm, hclosings]
      exact (closing_of_isReading (d := { d with trailers := d.trailers + 1 }) hm).symm
    · rw [hdiscards]
      rfl
    · exact booked_logged (Record.isOfTransport_of_isDiscard hdiscard)
    · rw [hdiscards]
      exact Nat.le_refl 1

variable [Transport τ]

/-! ### Steps -/

private theorem recorded_withLine (δ : Dialect) (limit : Nat) {accept : Decoder τ → StepOutcome τ}
    (hm : d.phase.marker.IsReading) (ho : d.line.IsOpen)
    (ha : ∀ line source, let r := accept { d with line, source }
      d.Recorded r.events r.state (payloadOf r.result) 1) :
    let r := d.withLine δ limit accept
    d.Recorded r.events r.state (payloadOf r.result) (consumed r.events).length := by
  intro r
  have he := Line.ofSource_fill δ limit d.line d.source
  have hb := Line.booked_fill δ limit d.line d.source
  have hf := Line.framing_fill δ limit d.source ho
  simp only [r, withLine]
  split
  · exact recorded_of_source [] he hb rfl rfl (Nat.zero_le _)
  · exact (recorded_stall hm _ _).after_source he hb (Nat.zero_le _)
  · exact (recorded_fail hm _ _ _).after_source he hb (Nat.zero_le _)
  · rename_i hr
    -- The line has come to its end, and so its line feed was taken.
    have htaken : 1 ≤ (consumed (d.line.fill δ limit d.source).events).length := by
      rw [hr] at hf
      obtain ⟨bs, hbs, -⟩ := hf.of_complete
      rw [hbs, List.length_append]
      exact Nat.le_add_left ..
    exact (ha _ _).after_source he hb htaken

/-- Payload is paid for with the bytes that it is made of. -/
private theorem recorded_handOver (hp : d.phase = .data) (room : Nat) :
    let r := d.handOver room
    d.Recorded r.events r.state (payloadOf r.result) (consumed r.events).length := by
  intro r
  have hm : d.phase.marker.IsReading := by
    rw [hp]
    exact .inr (.inl rfl)
  have he := d.source.ofSource_read (min room d.remaining.toNat)
  have hb := d.source.booked_read (min room d.remaining.toNat)
  simp only [r, handOver]
  split
  · exact recorded_of_source [] (by simp) booked_nil rfl rfl (Nat.zero_le _)
  · split
    · exact recorded_of_source [] he hb rfl rfl (Nat.zero_le _)
    · exact (recorded_stall hm _ _).after_source he hb (Nat.zero_le _)
    · rename_i b bs hr
      have hc : consumed (d.source.read (min room d.remaining.toNat)).events = b :: bs := by
        rw [Source.consumed_read, Outcome.bytesOf_of_ok hr, id]
      refine recorded_of_source (b :: bs) he hb ?_ ?_ ?_
      · rw [closing_of_isReading hm]
        exact closing_of_isReading hm
      · rfl
      · rw [hc]

private theorem recorded_step (δ : Dialect) (h : d.Coherent) (room : Nat) :
    let r := d.step δ room
    d.Recorded r.events r.state (payloadOf r.result) (consumed r.events).length := by
  intro r
  simp only [r, step]
  split
  · rename_i hp
    have hm : d.phase.marker.IsReading := by rw [hp]; exact .inl rfl
    exact recorded_withLine δ _ hm (h.line_isOpen hm.isFailed_eq) fun line source =>
      (recorded_acceptSizeLine hm line source).mono (Nat.zero_le 1)
  · rename_i hp
    have hm : d.phase.marker.IsReading := by rw [hp]; exact .inr (.inl rfl)
    split
    · exact recorded_handOver hp room
    · exact recorded_withLine δ _ hm (h.line_isOpen hm.isFailed_eq) fun line source =>
        (recorded_acceptTerminator hm line source).mono (Nat.zero_le 1)
  · rename_i hp
    have hm : d.phase.marker.IsReading := by rw [hp]; exact .inr (.inr rfl)
    exact recorded_withLine δ _ hm (h.line_isOpen hm.isFailed_eq) (recorded_acceptTrailerLine δ hm)
  -- What has ended, or has failed, is not told again.
  · exact recorded_of_source [] (by simp) booked_nil rfl rfl (Nat.zero_le _)
  · exact recorded_of_source [] (by simp) booked_nil rfl rfl (Nat.zero_le _)

/-! ### Reads and runs -/

private theorem recorded_advance (δ : Dialect) (d : Decoder τ) (room : Nat) (h : d.Coherent) :
    let r := d.advance δ room
    d.Recorded r.events r.state (r.bytesOf Progress.payload) (consumed r.events).length := by
  have hstep {d : Decoder τ} (h : d.Coherent) {result : Except Fault (Option (Progress Bytes))}
      (hr : (d.step δ room).result = result) :
      d.Recorded (d.step δ room).events (d.step δ room).state (payloadOf result)
        (consumed (d.step δ room).events).length :=
    hr ▸ recorded_step δ h room
  fun_induction advance δ d room with
  | case1 d r f hr => exact hstep h hr
  | case2 d r p hr => exact hstep h hr
  | case3 d r hr ih =>
    have hrest := (hstep h hr).trans (ih (h.step δ room))
    rwa [← List.length_append, ← consumed_append] at hrest

private theorem booked_perform (δ : Dialect) (d : Decoder τ) {op : Operation} (hr : ∀ room, op ≠ .read room) :
    Booked (d.perform δ op).events := by
  cases op with
  | read room => exact absurd rfl (hr room)
  | refill => exact d.source.booked_refill
  | take room => exact d.source.booked_read room
  | replenish => exact d.source.booked_replenish
  | noteUsedUp => exact booked_nil
  | markDraining => exact booked_nil
  | next limits => exact booked_nil

private theorem recorded_perform (δ : Dialect) (h : d.Coherent) {op : Operation} (ho : ∀ l, op ≠ .next l) :
    let r := d.perform δ op
    d.Recorded r.events r.state (r.bytesOf Answer.payload) (consumed r.events).length := by
  intro r
  by_cases hop : ∃ room, op = .read room
  · obtain ⟨room, rfl⟩ := hop
    have hread := (recorded_advance δ d room h).trans
      (recorded_report (d.advance δ room).state ((d.advance δ room).result.map (Progress.map List.length)))
    rw [List.append_nil, Nat.add_zero, ← payload_perform_read] at hread
    simpa [r, perform, read] using hread
  · have hr : ∀ room, op ≠ .read room := fun room he => hop ⟨room, he⟩
    obtain ⟨hpayload, source, hstate⟩ := d.perform_on_source δ op hr ho
    simp only [r]
    rw [hpayload, hstate]
    exact recorded_of_source [] (d.ofSource_perform δ op hr) (d.booked_perform δ hr) rfl rfl (Nat.zero_le _)

private theorem recorded_run (δ : Dialect) (h : d.Coherent) {ops : List Operation}
    (ho : ∀ op ∈ ops, ∀ l, op ≠ .next l) :
    d.Recorded (eventsOf (d.run δ ops)) (d.finish δ ops) (delivered (d.run δ ops))
      (consumed (eventsOf (d.run δ ops))).length := by
  induction ops generalizing d with
  | nil => exact recorded_of_source [] (by simp) booked_nil rfl rfl (Nat.zero_le _)
  | cons op ops ih =>
    obtain ⟨hop, hops⟩ := List.forall_mem_cons.1 ho
    have hrun := (recorded_perform δ h hop).trans (ih (h.perform δ op) hops)
    rwa [← List.length_append, ← consumed_append, ← delivered_cons, ← eventsOf_cons] at hrun

/-! ### The whole log -/

/-- The log of a decoder is an account of all that it did. As long as the stream is shorter than 64 bits can count, the
sizes in the log are together what was handed over and what remains of the chunk, and a trailer line is in the log for
each one that was counted. There is a warning if the decoder has failed, one only, which names the phase and the error
that the decoder holds, however many reads have followed. The refills are together what the transport handed over, its
end is logged once if it was noted, and else not. That the body is complete is logged once if it is, with the counters
as they are then, and else not. What the transport handed over is not only what the events say: the transport is where
the answers among them leave it. -/
theorem audit_trail (δ : Dialect) (limits : Limits) (b : Buffer) (t : τ) {ops : List Operation}
    (ho : ∀ op ∈ ops, ∀ l, op ≠ .next l) :
    let start := ofSource (.ofBuffer b t) limits
    let d := start.finish δ ops
    let es := eventsOf (start.run δ ops)
    Transport.Reads t (replies es) d.source.transport ∧
      ((b.data ++ received es).length < UInt64.size →
        chunkTotal es = d.decoded.toNat + d.remaining.toNat ∧ discards es = d.trailers.toNat) ∧
      (records es).filter (fun r => r.severity = .warn) =
        (match d.phase with
          | .failed marker error => [.decodingFailed marker error]
          | _ => []) ∧
      refillTotal es = (received es).length ∧
      (records es).count .transportExhausted = d.source.exhausted.toNat ∧
      (records es).filter Record.isTermination =
        if d.phase = .terminated then [.chunkedBodyTerminated d.decoded d.trailers] else [] := by
  intro start d es
  have hcoherent : start.Coherent := coherent_ofSource _ limits
  have hrecorded : start.Recorded es d (delivered (start.run δ ops)) (consumed es).length :=
    recorded_run δ hcoherent ho
  have hclosings : closings es = d.closing := hrecorded.closings_eq (.inl rfl)
  refine ⟨(start.trace_run δ ops).reads, fun hlength => ?_, ?_, hrecorded.booked.refillTotal_eq, ?_, ?_⟩
  · -- Nothing was taken but what the stream holds, so neither counter has gone round.
    obtain ⟨-, hconserved⟩ := (start.trace_run δ ops).conserves (Source.consistent_ofBuffer b t)
    have hconsumed : (consumed es).length ≤ (b.data ++ received es).length := by
      rw [show b.data ++ received es = consumed es ++ d.source.buffer.data from hconserved, List.length_append]
      exact Nat.le_add_right ..
    have hpaid := hrecorded.le_paid
    obtain ⟨-, -, hdecoded, htotal⟩ := (accounted_ofSource (.ofBuffer b t) limits).finish δ ho
    constructor
    · simp only [Nat.zero_add] at htotal hdecoded
      have hdelivered : (delivered (start.run δ ops)).length < UInt64.size := by omega
      rw [Nat.mod_eq_of_lt hdelivered] at hdecoded
      rw [hdecoded]
      exact htotal.symm
    · rw [hrecorded.trailers_eq, toNat_add_toUInt64, Nat.mod_eq_of_lt]
      · exact (Nat.zero_add _).symm
      · simp only [start, ofSource, UInt64.toNat_zero]
        omega
  · rw [← filter_closings es (by simp +contextual [Record.isClosing]), hclosings, closing]
    cases d.phase <;> rfl
  · rw [hrecorded.booked.count_transportExhausted, ← (start.trace_run δ ops).count_ended]
    exact (Nat.zero_add _).symm
  · rw [← filter_closings es (by simp +contextual [Record.isClosing]), hclosings, closing]
    cases d.phase <;> rfl

/-- A chunk of three bytes, two trailer lines of which the second has no colon, and the begin of another one where the
transport ends. Two reads and a refill follow on the read that fails. -/
theorem audit_trail_of_cut_trailers :
    let t : Fragments := ⟨[.fragment 51 [13, 10, 97, 98], .gap,
      .fragment 99 [13, 10, 48, 13, 10, 65, 58, 98, 13, 10, 99, 13, 10, 100]], true⟩
    let ops : List Operation := [.read 8, .refill, .read 8, .read 8, .read 8, .read 8, .refill, .read 8]
    let start := ofSource (.ofBuffer (.ofStorage (List.replicate 8 0)) t) {}
    let es := eventsOf (start.run .strict ops)
    chunkTotal es = 3 ∧ discards es = 2 ∧ refillTotal es = 20 ∧ (records es).count .transportExhausted = 1 ∧
      (records es).filter (fun r => r.severity = .warn) = [.decodingFailed .trailers (.truncated .trailers)] ∧
      (records es).filter Record.isTermination = [] := by
  intro t ops start es
  obtain ⟨-, hcounters, hwarnings, hrefills, hexhausted, hterminations⟩ :=
    audit_trail .strict {} (.ofStorage (List.replicate 8 0)) t (show ∀ op ∈ ops, ∀ l, op ≠ .next l by simp [ops])
  have hphase : (start.finish .strict ops).phase = .failed .trailers (.truncated .trailers) := by decide +kernel
  obtain ⟨hchunks, hdiscards⟩ := hcounters (by decide +kernel)
  refine ⟨hchunks.trans (by decide +kernel), hdiscards.trans (by decide +kernel), hrefills.trans (by decide +kernel),
    hexhausted.trans (by decide +kernel), ?_, ?_⟩
  · rw [hphase] at hwarnings
    exact hwarnings
  · rw [hphase] at hterminations
    exact hterminations

end Decoder

end ChunkedTransfer
