import ChunkedTransfer.Proofs.Demand
import ChunkedTransfer.Proofs.Destination
import ChunkedTransfer.Proofs.Soundness

/-!
# What one read delivers

A read that hands over payload may finish the end of a chunk, read a size line, and then read payload with whatever the
buffer holds or the transport has. The lines it consumes lead to payload of one chunk (`Decoder.LeadsTo`), and the
payload is what follows them in the stream, as much of it as the destination, the chunk and the buffer have in common
(`Decoder.Delivers`). The lines are followed step by step: each step without an answer has read one line
(`Decoder.accepted_step`).
-/

namespace ChunkedTransfer

open Grammar (Framed IsSizeLine numeralValue)

namespace Source

variable {τ : Type} [Transport τ]

/-- Bytes that lie in the buffer are taken as they are, and none is asked for. -/
private theorem read_of_available {s : Source τ} (ha : 0 < s.available) {room : Nat} (hr : 0 < room) :
    (s.read room).result = .ok (s.buffer.data.take room) := by
  have hs : s.replenish = ⟨.ok s.available, s, []⟩ := if_pos ha
  rw [read, if_neg (by omega), hs, Outcome.andThen_of_ok rfl, if_neg (by omega)]
  rfl

end Source

/-- A line that was completed was sent with a line end, and is within its limit. -/
theorem Line.sent_fill {τ : Type} [Transport τ] {δ : Dialect} {limit : Nat} {l : Line} {s : Source τ} (ho : l.IsOpen)
    (h : (l.fill δ limit s).result = .ok .complete) :
    let line := (l.fill δ limit s).state.1.content
    Framed limit line ∧ Grammar.Sent δ [line] (l.content ++ consumed (l.fill δ limit s).events) := by
  intro line
  have hf := framing_fill δ limit s ho
  simp only [h] at hf
  obtain ⟨bs, hcs, hb, hc, hl⟩ := hf.of_complete
  obtain ⟨e, he, hs⟩ := Dialect.lineEnd_of_content? hc
  refine ⟨⟨fun hm => ?_, hl⟩, ?_⟩
  · have := Dialect.mem_of_mem_content? hc hm
    simp [ho.no_lineFeed, hb] at this
  · rw [hcs, ← List.append_assoc, hs]
    exact .single he line

namespace Decoder

variable {τ : Type}

/-! ### The lines in front of payload -/

/-- What the bytes of a line have done, by the phase in which it was read. -/
inductive Accepted (δ : Dialect) (d e : Decoder τ) (framed : Bytes) : Prop
  | sizeLine {line numeral : Bytes} (hp : d.phase = .size) (hs : Grammar.Sent δ [line] (d.line.content ++ framed))
      (hf : Framed d.limits.chunkLine line) (hn : IsSizeLine line numeral) (hv : numeralValue numeral = e.remaining.toNat)
      (he : e.phase = if e.remaining = 0 then .trailers else .data)
  | terminator (hp : d.phase = .data) (hr : d.remaining = 0) (hs : Grammar.Sent δ [[]] (d.line.content ++ framed))
      (he : e.phase = .size) (hl : e.line = {})
  | trailerLine (hp : d.phase = .trailers) (he : e.phase = .trailers ∨ e.phase = .terminated)

/-- The bytes bring the decoder to payload of a chunk, of which so many bytes were not read yet. -/
inductive LeadsTo (δ : Dialect) (d : Decoder τ) : Bytes → Nat → Prop
  /-- The decoder is inside a chunk. -/
  | within (hp : d.phase = .data) (hr : 0 < d.remaining) : LeadsTo δ d [] d.remaining.toNat
  /-- The rest of a size line was read. -/
  | sizeLine {framed line numeral : Bytes} (hp : d.phase = .size)
      (hs : Grammar.Sent δ [line] (d.line.content ++ framed)) (hf : Framed d.limits.chunkLine line)
      (hn : IsSizeLine line numeral) (hv : 0 < numeralValue numeral) : LeadsTo δ d framed (numeralValue numeral)
  /-- The rest of the line behind a chunk was read, and the size line of the next chunk. -/
  | nextChunk {framed line numeral : Bytes} (hp : d.phase = .data) (hr : d.remaining = 0)
      (hs : Grammar.Sent δ [[], line] (d.line.content ++ framed)) (hf : Framed d.limits.chunkLine line)
      (hn : IsSizeLine line numeral) (hv : 0 < numeralValue numeral) : LeadsTo δ d framed (numeralValue numeral)

/-- The line that was accepted is the first of those that lead to payload. -/
private theorem LeadsTo.prepend {δ : Dialect} {d e : Decoder τ} {framed framed' : Bytes} {unread : Nat}
    (h : LeadsTo δ e framed' unread) (ha : Accepted δ d e framed) (hl : e.limits = d.limits) :
    LeadsTo δ d (framed ++ framed') unread := by
  cases ha with
  | sizeLine hp hs hf hn hv he =>
    -- Behind the size line comes the payload, if the size is not zero.
    by_cases hz : e.remaining = 0
    · rw [if_pos hz] at he
      cases h with
      | within hp' => simp [he] at hp'
      | sizeLine hp' => simp [he] at hp'
      | nextChunk hp' => simp [he] at hp'
    · rw [if_neg hz] at he
      cases h with
      | within _ hr =>
        rw [List.append_nil, ← hv]
        rw [UInt64.lt_iff_toNat_lt, ← hv] at hr
        exact .sizeLine hp hs hf hn hr
      | sizeLine hp' => simp [he] at hp'
      | nextChunk _ hr => exact absurd hr hz
  | terminator hp hr hs he hline =>
    cases h with
    | within hp' => simp [he] at hp'
    | sizeLine _ hs' hf hn hv =>
      rw [hline, List.nil_append] at hs'
      rw [hl] at hf
      refine .nextChunk hp hr ?_ hf hn hv
      rw [← List.append_assoc]
      exact hs.append hs'
    | nextChunk hp' => simp [he] at hp'
  | trailerLine hp he =>
    cases h with
    | within hp' => simp [hp'] at he
    | sizeLine hp' => simp [hp'] at he
    | nextChunk hp' => simp [hp'] at he

/-- A size line that is accepted sets what remains to its value. -/
private theorem acceptSizeLine_of_none {d : Decoder τ} (h : d.acceptSizeLine.result = .ok none) :
    ∃ numeral, IsSizeLine d.line.content numeral ∧ numeralValue numeral = d.acceptSizeLine.state.remaining.toNat ∧
      d.acceptSizeLine.state.phase = (if d.acceptSizeLine.state.remaining = 0 then .trailers else .data) ∧
      consumed d.acceptSizeLine.events = [] := by
  unfold acceptSizeLine at h ⊢
  cases hs : SizeLine.size d.line.content with
  | error e => simp [hs, Except.bind, fail] at h
  | ok size =>
    cases ha : d.limits.accept d.decoded size with
    | error e => simp [hs, Except.bind, ha, fail] at h
    | ok n =>
      obtain ⟨rfl, -, -⟩ := Limits.accept_eq_ok_iff.1 ha
      obtain ⟨numeral, hn, hv⟩ := SizeLine.size_eq_ok_iff.1 hs
      refine ⟨numeral, hn, ?_⟩
      simp only [Except.bind, ha]
      split
      · exact ⟨hv, rfl, rfl⟩
      · exact ⟨hv, rfl, rfl⟩

/-- What stands behind the payload of a chunk is accepted if it is empty. -/
private theorem acceptTerminator_of_none {d : Decoder τ} (h : d.acceptTerminator.result = .ok none) :
    d.line.content = [] ∧ d.acceptTerminator = ⟨.ok none, { d with line := {}, phase := .size }, []⟩ := by
  unfold acceptTerminator at h ⊢
  split at h
  · rename_i hl
    exact ⟨by simpa using hl, if_pos hl⟩
  · simp [fail] at h

private theorem phase_acceptTrailerLine (δ : Dialect) (d : Decoder τ) :
    (d.acceptTrailerLine δ).state.phase = d.phase ∨ (d.acceptTrailerLine δ).state.phase = .terminated := by
  unfold acceptTrailerLine
  split
  · exact .inr rfl
  · exact .inl rfl

variable [Transport τ]

/-- A step without an answer has read a line. -/
theorem accepted_step {δ : Dialect} {d : Decoder τ} {room : Nat} (hc : d.Coherent)
    (h : (d.step δ room).result = .ok none) :
    Accepted δ d (d.step δ room).state (consumed (d.step δ room).events) := by
  unfold step at h ⊢
  split at h
  · rename_i hp
    obtain ⟨hfill, hn, he⟩ := withLine_of_none h
    obtain ⟨hf, hs⟩ := Line.sent_fill (hc.line_isOpen (by rw [hp]; rfl)) hfill
    obtain ⟨numeral, hnum, hv, hphase, hconsumed⟩ := acceptSizeLine_of_none hn
    rw [he, Outcome.events_after, consumed_append, hconsumed, List.append_nil]
    exact .sizeLine hp hs hf hnum hv hphase
  · rename_i hp
    split at h
    · exact absurd h (d.handOver_ne_none room)
    · rename_i hr
      obtain ⟨hfill, hn, he⟩ := withLine_of_none h
      obtain ⟨-, hs⟩ := Line.sent_fill (hc.line_isOpen (by rw [hp]; rfl)) hfill
      obtain ⟨hline, hterminator⟩ := acceptTerminator_of_none hn
      simp only at hline
      rw [hline] at hs
      rw [if_neg hr, he, hterminator, Outcome.events_after, List.append_nil]
      exact .terminator hp (by simpa using hr) hs rfl rfl
  · rename_i hp
    obtain ⟨-, -, he⟩ := withLine_of_none h
    rw [he]
    have := phase_acceptTrailerLine δ { d with
      line := (d.line.fill δ d.limits.trailerLine d.source).state.1
      source := (d.line.fill δ d.limits.trailerLine d.source).state.2 }
    exact .trailerLine hp (by simpa [hp] using this)
  · simp at h
  · simp at h

/-! ### Payload -/

/-- What a read that hands over payload has done. The decoder `e` is the one that the read comes to in front of the
payload: the lines were read before, in the first of the two rows of events, and the payload is read after. -/
structure Delivers (δ : Dialect) (d : Decoder τ) (room : Nat) (r : Outcome (Decoder τ) (Progress Bytes)) (bs : Bytes)
    (e : Decoder τ) (before after : List Event) : Prop where
  passes : Passes δ room d e
  phase_eq : e.phase = .data
  leadsTo : LeadsTo δ d (consumed before) e.remaining.toNat
  events_eq : r.events = before ++ after
  /-- The lines are at the front of the stream. -/
  before_eq : d.source.buffer.data ++ received before = consumed before ++ e.source.buffer.data
  /-- The payload is next in the stream. -/
  after_eq : e.source.buffer.data ++ received after = bs ++ r.state.source.buffer.data
  consumed_after : consumed after = bs
  /-- There is payload if there is room for it, and no more than the chunk has. -/
  nonempty : 0 < room → bs ≠ []
  length_le : bs.length ≤ min room e.remaining.toNat
  /-- Payload that was in the buffer is handed over as it is. -/
  of_buffered : e.source.buffer.data ≠ [] →
    bs.length = min (min room e.remaining.toNat) e.source.buffer.data.length ∧ replies after = []
  remaining_eq : r.state.remaining.toNat + bs.length = e.remaining.toNat

/-- Payload that is handed over in a step. -/
private theorem delivers_step {δ : Dialect} {d : Decoder τ} {room : Nat} {bs : Bytes} (hs : d.source.Consistent)
    (h : (d.step δ room).result = .ok (some (.read bs))) :
    d.Delivers δ room ⟨.ok (.read bs), (d.step δ room).state, (d.step δ room).events⟩ bs d [] (d.step δ room).events := by
  have hconsumed := consumed_step_of_read h
  have hconserves := ((d.trace_step δ room).conserves hs).2
  rw [hconsumed] at hconserves
  obtain ⟨hp, hr, hstep⟩ := step_of_read h
  rw [hstep] at h hconsumed hconserves ⊢
  rcases handOver_of_read h with ⟨rfl, rfl, ho⟩ | ⟨hbs, hread, ho⟩
  · rw [ho]
    exact { passes := .refl d, phase_eq := hp, leadsTo := .within hp hr, events_eq := rfl, before_eq := by simp
            after_eq := by simp, consumed_after := rfl, nonempty := by simp, length_le := Nat.zero_le _
            of_buffered := by simp, remaining_eq := rfl }
  · have hlength := Source.length_read_le hread
    have hcap : 0 < min room d.remaining.toNat := Nat.lt_of_lt_of_le (List.length_pos_iff.2 hbs) hlength
    have hbuffered (hd : d.source.buffer.data ≠ []) :
        bs.length = min (min room d.remaining.toNat) d.source.buffer.data.length ∧
          replies (d.handOver room).events = [] := by
      have ha : 0 < d.source.available := Nat.pos_of_ne_zero fun hz => hd (hs.data_eq_nil hz)
      rw [Source.read_of_available ha hcap, Except.ok.injEq] at hread
      rw [← hread, List.length_take]
      exact ⟨rfl, replies_handOver hs (.inr hd)⟩
    exact { passes := .refl d, phase_eq := hp, leadsTo := .within hp hr, events_eq := rfl, before_eq := by simp
            after_eq := hconserves, consumed_after := hconsumed, nonempty := fun _ => hbs, length_le := hlength
            of_buffered := hbuffered
            remaining_eq := by
              rw [ho]
              simp only
              rw [toNat_sub_toUInt64 (by omega)]
              omega }

/-- A line that was read in front of everything else is one more of those that lead to the payload. -/
private theorem Delivers.prepend {δ : Dialect} {d e : Decoder τ} {room : Nat} {r : Outcome (Decoder τ) (Progress Bytes)}
    {bs : Bytes} {before after : List Event} (hr : (d.step δ room).result = .ok none) (hc : d.Coherent)
    (hs : d.source.Consistent) (h : (d.step δ room).state.Delivers δ room r bs e before after) :
    d.Delivers δ room (r.after (d.step δ room).events) bs e ((d.step δ room).events ++ before) after where
  passes := .step hr h.passes
  phase_eq := h.phase_eq
  leadsTo := by
    rw [consumed_append]
    exact h.leadsTo.prepend (accepted_step hc hr) (d.counts_step δ room).limits_eq
  events_eq := by rw [Outcome.events_after, h.events_eq, List.append_assoc]
  before_eq := by
    rw [received_append, consumed_append, ← List.append_assoc, ((d.trace_step δ room).conserves hs).2,
      List.append_assoc, h.before_eq, List.append_assoc]
  after_eq := h.after_eq
  consumed_after := h.consumed_after
  nonempty := h.nonempty
  length_le := h.length_le
  of_buffered := h.of_buffered
  remaining_eq := h.remaining_eq

private theorem exists_delivers_advance (δ : Dialect) (d : Decoder τ) (room : Nat) {bs : Bytes} (hc : d.Coherent)
    (hs : d.source.Consistent) (h : (d.advance δ room).result = .ok (.read bs)) :
    ∃ e before after, d.Delivers δ room (d.advance δ room) bs e before after := by
  fun_induction advance δ d room with
  | case1 d r f hr => simp at h
  | case2 d r p hr =>
    obtain rfl : p = .read bs := by simpa using h
    exact ⟨d, [], _, delivers_step hs hr⟩
  | case3 d r hr ih =>
    obtain ⟨e, before, after, hd⟩ := ih (hc.step δ room) ((d.trace_step δ room).conserves hs).1 h
    exact ⟨e, _, after, hd.prepend hr hc hs⟩

/-- What is noted about a read at its end changes nothing in what it delivers. -/
private theorem exists_delivers_read (δ : Dialect) {d : Decoder τ} {room : Nat} {bs : Bytes} (hc : d.Coherent)
    (hs : d.source.Consistent) (h : (d.read δ room).result = .ok (.read bs)) :
    ∃ e before after, d.Delivers δ room (d.read δ room) bs e before after := by
  obtain ⟨e, before, after, hd⟩ := exists_delivers_advance δ d room hc hs h
  refine ⟨e, before, after ++ ((d.advance δ room).state.source.report
    ((d.advance δ room).result.map (Progress.map List.length))).2, ?_⟩
  exact { hd with
    events_eq := by
      rw [← List.append_assoc, ← hd.events_eq]
      rfl
    after_eq := by simpa [read] using hd.after_eq
    consumed_after := by simpa using hd.consumed_after
    of_buffered := by simpa using hd.of_buffered }

/-! ### The counter of the payload -/

/-- The counter is at most the number of bytes that were handed over, also where it has wrapped. -/
private theorem decoded_perform_le (δ : Dialect) (d : Decoder τ) (op : Operation) :
    (d.perform δ op).state.decoded.toNat ≤ d.decoded.toNat + ((d.perform δ op).bytesOf Answer.payload).length := by
  rcases d.perform_cases δ op with ⟨room, rfl⟩ | ⟨limits, rfl⟩ | ⟨hp, source, hs⟩
  · rw [payload_perform_read, show (d.perform δ (.read room)).state.decoded = (d.advance δ room).state.decoded from rfl,
      decoded_advance, toNat_add_toUInt64]
    exact Nat.mod_le _ _
  · exact Nat.zero_le _
  · rw [hp, hs]
    exact Nat.le_refl _

private theorem decoded_finish_le (δ : Dialect) (d : Decoder τ) (ops : List Operation) :
    (d.finish δ ops).decoded.toNat ≤ d.decoded.toNat + (delivered (d.run δ ops)).length := by
  induction ops generalizing d with
  | nil => exact Nat.le_refl _
  | cons op ops ih =>
    have := d.decoded_perform_le δ op
    have := ih (d.perform δ op).state
    rw [finish_cons, run_cons, delivered_cons, List.length_append]
    omega

/-- One read, one chunk. Let a decoder be used in any way, and then read into any destination. Such a read is the one that
gives the payload as a value, with the payload written over the front of the destination. If it hands over payload, then
the payload is empty only where the destination is, the bytes behind it in the destination are untouched, and the counter
grows by its length, as long as 64 bits can count what was handed over. The payload is the next in the stream after the
lines that were consumed, and all of one chunk (`Delivers`). If the read hands over none, then it touches neither the
destination nor the counter. -/
theorem one_read_one_chunk (δ : Dialect) (limits : Limits) (b : Buffer) (t : τ) (ops : List Operation) (dst : Bytes) :
    let d₀ := ofSource (.ofBuffer b t) limits
    let d := d₀.finish δ ops
    let r := d.read δ dst.length
    let r' := d.readInto δ dst
    (r'.result = r.result.map (Progress.map List.length) ∧ r'.state.1 = r.state ∧ r'.events = r.events) ∧
      (∀ bs, r.result = .ok (.read bs) →
        r'.state.2 = bs ++ dst.drop bs.length ∧ (bs = [] → dst = []) ∧
          r.state.decoded = d.decoded + bs.length.toUInt64 ∧
          ((delivered (d₀.run δ ops)).length + bs.length < UInt64.size →
            r.state.decoded.toNat = d.decoded.toNat + bs.length) ∧
          ∃ e before after, d.Delivers δ dst.length r bs e before after) ∧
      ((∀ bs, r.result ≠ .ok (.read bs)) → r'.state.2 = dst ∧ r.state.decoded = d.decoded) := by
  intro d₀ d r r'
  have hinto : r' = r.writing (Progress.map List.length) dst (r.bytesOf Progress.payload) := d.readInto_eq δ dst
  have hcoherent : d.Coherent := (coherent_ofSource _ limits).finish δ ops
  have hconsistent : d.source.Consistent := ((d₀.trace_run δ ops).conserves (Source.consistent_ofBuffer b t)).1
  have hdecoded : r.state.decoded = d.decoded + (r.bytesOf Progress.payload).length.toUInt64 :=
    d.decoded_advance δ dst.length
  refine ⟨by rw [hinto]; exact ⟨rfl, rfl, rfl⟩, fun bs h => ?_, fun h => ?_⟩
  · obtain ⟨e, before, after, hd⟩ := exists_delivers_read δ hcoherent hconsistent h
    rw [Outcome.bytesOf_of_ok h, Progress.payload] at hdecoded
    refine ⟨?_, fun hbs => ?_, hdecoded, fun hlt => ?_, e, before, after, hd⟩
    · rw [hinto, Outcome.bytesOf_of_ok h]
      rfl
    · by_contra hdst
      exact hd.nonempty (List.length_pos_iff.2 hdst) hbs
    · have hle : d.decoded.toNat ≤ 0 + (delivered (d₀.run δ ops)).length := d₀.decoded_finish_le δ ops
      rw [hdecoded, toNat_add_toUInt64, Nat.mod_eq_of_lt (by omega)]
  · have hnone : r.bytesOf Progress.payload = [] := by
      cases hres : r.result with
      | error f => exact Outcome.bytesOf_of_error hres _
      | ok p =>
        cases p with
        | read bs => exact absurd hres (h bs)
        | pending => exact Outcome.bytesOf_of_ok hres _
        | ended => exact Outcome.bytesOf_of_ok hres _
    rw [hnone] at hdecoded
    refine ⟨?_, hdecoded.trans (UInt64.add_zero _)⟩
    rw [hinto, hnone]
    rfl

/-- The second of two chunks is read behind the end of the first, and the rest of the destination is as it was. -/
theorem one_read_one_chunk_of_second_chunk :
    let bs : Bytes := [49, 13, 10, 97, 13, 10, 50, 13, 10, 98, 99, 13, 10]
    let t : Fragments := ⟨[], false⟩
    let d := (ofSource (.ofBuffer (.withReceived bs bs.length) t) {}).finish .strict [.read 8]
    let r := d.read .strict 4
    let r' := d.readInto .strict [9, 9, 9, 9]
    r.result = .ok (.read [98, 99]) ∧ r'.state.2 = [98, 99, 9, 9] ∧ r.state.decoded = d.decoded + 2 ∧
      ∃ e before after, d.Delivers .strict 4 r [98, 99] e before after := by
  intro bs t d r r'
  obtain ⟨-, hread, -⟩ :=
    one_read_one_chunk .strict {} (.withReceived bs bs.length) t [.read 8] [9, 9, 9, 9]
  have hr : r.result = .ok (.read [98, 99]) := by decide +kernel
  obtain ⟨hdst, -, hdecoded, -, hdelivers⟩ := hread [98, 99] hr
  exact ⟨hr, hdst, hdecoded, hdelivers⟩

end Decoder

end ChunkedTransfer
