import ChunkedTransfer.Proofs.Agreement
import ChunkedTransfer.Proofs.SizeLine
import ChunkedTransfer.Transport.Fragments

/-!
# Bounds on the payload

A step sets the size of a chunk only to one that the limits accept, and hands over no more than remains of the chunk
(`counts_step`). So the counters of a decoder stay within the limits and are exact, in the states between the steps of
a read too (`limits_hold`). The limit of the body must lie below the largest number of 64 bits: a sum that does not fit
is taken for that number, and would not be refused if the limit were it.
-/

namespace ChunkedTransfer

open Grammar (IsSizeLine numeralValue)

/-- A size line that gives more than the limits allow is refused, for the limit that it breaks if its value is a number
of 64 bits at all. -/
private theorem Limits.refuses_of_exceeds {limits : Limits} (hl : limits.body < maxSize) {decoded : UInt64}
    {line numeral : Bytes} (hn : IsSizeLine line numeral)
    (hx : limits.chunk.toNat < numeralValue numeral ∨ limits.body.toNat < decoded.toNat + numeralValue numeral) :
    ∃ e, (SizeLine.size line).bind (limits.accept decoded) = .error e ∧
      ∀ size : UInt64, numeralValue numeral = size.toNat →
        e = if limits.chunk < size then .chunkTooLarge size limits.chunk
          else .bodyTooLarge (saturatingAdd decoded size) limits.body := by
  cases hs : SizeLine.size line with
  | error e =>
    refine ⟨e, rfl, fun size hv => ?_⟩
    rw [SizeLine.size_eq_ok_iff.2 ⟨numeral, hn, hv⟩] at hs
    simp at hs
  | ok size =>
    obtain ⟨numeral', hn', hv⟩ := SizeLine.size_eq_ok_iff.1 hs
    obtain rfl := SizeLine.numeral_unique hn hn'
    rw [hv] at hx
    refine ⟨if limits.chunk < size then .chunkTooLarge size limits.chunk
      else .bodyTooLarge (saturatingAdd decoded size) limits.body, ?_, fun size' hv' => ?_⟩
    · simp only [Except.bind, accept]
      split
      · rfl
      · rename_i hc
        -- The sum is beyond the limit, also if it had to be taken for the largest number.
        have hb : limits.body < saturatingAdd decoded size := by
          rw [UInt64.lt_iff_toNat_lt] at hl hc ⊢
          rw [toNat_saturatingAdd]
          have hmax : maxSize.toNat = UInt64.size - 1 := rfl
          omega
        rw [if_pos hb]
    · rw [UInt64.toNat_inj.1 (hv.symm.trans hv')]

namespace Decoder

variable {τ : Type}

/-! ### Counters -/

/-- What a step does to the counters of a decoder, with the payload that it hands over. -/
inductive Counts (d : Decoder τ) (r : StepOutcome τ) : Prop
  | keeps (hl : r.state.limits = d.limits) (hr : r.state.remaining = d.remaining) (hd : r.state.decoded = d.decoded)
      (hp : payloadOf r.result = [])
  /-- A size line was accepted. -/
  | sets {size : UInt64} (ha : d.limits.accept d.decoded size = .ok size) (hl : r.state.limits = d.limits)
      (hr : r.state.remaining = size) (hd : r.state.decoded = d.decoded) (hn : r.result = .ok none)
  | moves {bs : Bytes} (hb : bs.length ≤ d.remaining.toNat) (hl : r.state.limits = d.limits)
      (hr : r.state.remaining = d.remaining - bs.length.toUInt64)
      (hd : r.state.decoded = d.decoded + bs.length.toUInt64) (hp : payloadOf r.result = bs)

theorem Counts.limits_eq {d : Decoder τ} {r : StepOutcome τ} (h : d.Counts r) : r.state.limits = d.limits := by
  cases h <;> assumption

/-- The counters of a decoder that has handed over `n` bytes are exact and within the limits. -/
structure Bounded (limits : Limits) (n : Nat) (d : Decoder τ) : Prop where
  limits_eq : d.limits = limits
  remaining_le : d.remaining ≤ limits.chunk
  decoded_eq : d.decoded.toNat = n
  sum_le : n + d.remaining.toNat ≤ limits.body.toNat

private theorem bounded_ofSource (source : Source τ) (limits : Limits) : (ofSource source limits).Bounded limits 0 where
  limits_eq := rfl
  remaining_le := UInt64.zero_le
  decoded_eq := rfl
  sum_le := Nat.zero_le _

private theorem Bounded.withSource {limits : Limits} {n : Nat} {d : Decoder τ} (h : d.Bounded limits n)
    (source : Source τ) : Bounded limits n { d with source } := ⟨h.limits_eq, h.remaining_le, h.decoded_eq, h.sum_le⟩

/-- No more is handed over than remains, so that neither counter wraps. -/
private theorem Bounded.toNat_moves {limits : Limits} {n : Nat} {d : Decoder τ} (h : d.Bounded limits n) {m : Nat}
    (hm : m ≤ d.remaining.toNat) : (d.remaining - m.toUInt64).toNat = d.remaining.toNat - m ∧
      (d.decoded + m.toUInt64).toNat = d.decoded.toNat + m := by
  obtain ⟨-, -, hdecoded, hsum⟩ := h
  have hlt := limits.body.toNat_lt
  constructor
  · exact toNat_sub_toUInt64 hm
  · rw [toNat_add_toUInt64, Nat.mod_eq_of_lt (by simp only [UInt64.size]; omega)]

/-- What is within the limits stays there. Bytes that are handed over go from one counter to the other. -/
private theorem Counts.bounded {d : Decoder τ} {r : StepOutcome τ} (h : d.Counts r) {limits : Limits}
    (hl : limits.body < maxSize) {n : Nat} (hd : d.Bounded limits n) :
    r.state.Bounded limits (n + (payloadOf r.result).length) := by
  obtain ⟨hlimits, hremaining, hdecoded, hsum⟩ := hd
  cases h with
  | keeps hl' hr hd' hp =>
    rw [hp, List.length_nil, Nat.add_zero]
    exact ⟨hl'.trans hlimits, hr ▸ hremaining, hd' ▸ hdecoded, hr ▸ hsum⟩
  | @sets size ha hl' hr hd' hn =>
    rw [show payloadOf r.result = [] by rw [hn]; rfl, List.length_nil, Nat.add_zero]
    rw [hlimits] at ha
    obtain ⟨-, hchunk, hbody⟩ := Limits.accept_eq_ok_iff.1 ha
    refine ⟨hl'.trans hlimits, ?_, hd' ▸ hdecoded, ?_⟩
    · rwa [hr, UInt64.le_iff_toNat_le]
    · -- The limit lies below the largest number, so that the sum is not one that was cut off.
      have hmax : maxSize.toNat = UInt64.size - 1 := rfl
      rw [UInt64.lt_iff_toNat_lt] at hl
      rw [hr]
      omega
  | @moves bs hb hl' hr hd' hp =>
    obtain ⟨hr', hd''⟩ := Bounded.toNat_moves ⟨hlimits, hremaining, hdecoded, hsum⟩ hb
    rw [hp]
    refine ⟨hl'.trans hlimits, ?_, ?_, ?_⟩
    · rw [UInt64.le_iff_toNat_le] at hremaining ⊢
      rw [hr]
      omega
    · rw [hd']
      omega
    · rw [hr]
      omega

/-! ### Steps -/

private theorem counts_fail (d : Decoder τ) (e : FramingError) : d.Counts (d.fail e) := .keeps rfl rfl rfl rfl

private theorem counts_stall (d : Decoder τ) : d.Counts d.stall := by
  unfold stall
  split
  · exact d.counts_fail _
  · exact .keeps rfl rfl rfl rfl

private theorem counts_acceptSizeLine (d : Decoder τ) : d.Counts d.acceptSizeLine := by
  unfold acceptSizeLine
  split
  · exact d.counts_fail _
  · rename_i size hs
    have ha : d.limits.accept d.decoded size = .ok size := by
      cases hsize : SizeLine.size d.line.content with
      | error e => simp [hsize, Except.bind] at hs
      | ok size' =>
        simp only [hsize, Except.bind] at hs
        obtain ⟨rfl, -, -⟩ := Limits.accept_eq_ok_iff.1 hs
        exact hs
    split
    · exact .sets ha rfl rfl rfl rfl
    · exact .sets ha rfl rfl rfl rfl

private theorem counts_acceptTerminator (d : Decoder τ) : d.Counts d.acceptTerminator := by
  unfold acceptTerminator
  split
  · exact .keeps rfl rfl rfl rfl
  · exact d.counts_fail _

private theorem counts_acceptTrailerLine (δ : Dialect) (d : Decoder τ) : d.Counts (d.acceptTrailerLine δ) := by
  unfold acceptTrailerLine
  split <;> exact .keeps rfl rfl rfl rfl

/-- Neither the line nor the source of a decoder is among what is counted. -/
private theorem Counts.of_framed {d : Decoder τ} {line : Line} {source : Source τ} {r : StepOutcome τ}
    (h : Counts { d with line, source } r) (es : List Event) : d.Counts (r.after es) := by
  cases h with
  | keeps hl hr hd hp => exact .keeps hl hr hd hp
  | sets ha hl hr hd hn => exact .sets ha hl hr hd hn
  | moves hb hl hr hd hp => exact .moves hb hl hr hd hp

variable [Transport τ]

private theorem counts_withLine (δ : Dialect) (limit : Nat) {accept : Decoder τ → StepOutcome τ} (d : Decoder τ)
    (ha : ∀ e : Decoder τ, e.Counts (accept e)) : d.Counts (d.withLine δ limit accept) := by
  unfold withLine
  simp only
  split
  · exact .keeps rfl rfl rfl rfl
  · exact (counts_stall _).of_framed _
  · exact (counts_fail _ _).of_framed _
  · exact (ha _).of_framed _

private theorem counts_handOver (d : Decoder τ) (room : Nat) : d.Counts (d.handOver room) := by
  unfold handOver
  split
  · exact .keeps rfl rfl rfl rfl
  · simp only
    split
    · exact .keeps rfl rfl rfl rfl
    · exact (counts_stall { d with source := (d.source.read (min room d.remaining.toNat)).state }).of_framed _
    · rename_i b bs hr
      have hlength := Source.length_read_le hr
      exact .moves (show (b :: bs).length ≤ d.remaining.toNat by omega) rfl rfl rfl rfl

theorem counts_step (δ : Dialect) (d : Decoder τ) (room : Nat) : d.Counts (d.step δ room) := by
  unfold step
  split
  · exact d.counts_withLine δ _ counts_acceptSizeLine
  · split
    · exact d.counts_handOver room
    · exact d.counts_withLine δ _ counts_acceptTerminator
  · exact d.counts_withLine δ _ (counts_acceptTrailerLine δ)
  · exact .keeps rfl rfl rfl rfl
  · exact .keeps rfl rfl rfl rfl

theorem decoded_step (δ : Dialect) (d : Decoder τ) (room : Nat) :
    (d.step δ room).state.decoded = d.decoded + (payloadOf (d.step δ room).result).length.toUInt64 := by
  cases d.counts_step δ room with
  | keeps _ _ hd hp =>
    rw [hd, hp]
    exact (UInt64.add_zero _).symm
  | sets _ _ _ hd hn =>
    rw [hd, hn]
    exact (UInt64.add_zero _).symm
  | moves _ _ _ hd hp => rw [hd, hp]

/-! ### Reads and runs -/

/-- A read counts the payload that it hands over. -/
theorem decoded_advance (δ : Dialect) (d : Decoder τ) (room : Nat) :
    (d.advance δ room).state.decoded =
      d.decoded + ((d.advance δ room).bytesOf Progress.payload).length.toUInt64 := by
  fun_induction advance δ d room with
  | case1 d r f hr =>
    have hs := d.decoded_step δ room
    rwa [hr] at hs
  | case2 d r p hr =>
    have hs := d.decoded_step δ room
    rwa [hr] at hs
  | case3 d r hr ih =>
    have hs : r.state.decoded = d.decoded + (payloadOf r.result).length.toUInt64 := d.decoded_step δ room
    rw [hr] at hs
    rw [Outcome.state_after, ih, hs]
    exact congrArg (· + _) (UInt64.add_zero _)

theorem limits_advance (δ : Dialect) (d : Decoder τ) (room : Nat) : (d.advance δ room).state.limits = d.limits := by
  fun_induction advance δ d room with
  | case1 d r f hr => exact (d.counts_step δ room).limits_eq
  | case2 d r p hr => exact (d.counts_step δ room).limits_eq
  | case3 d r hr ih => exact ih.trans (d.counts_step δ room).limits_eq

variable {limits : Limits} {n : Nat}

private theorem Bounded.advance (hl : limits.body < maxSize) (δ : Dialect) (d : Decoder τ) (room : Nat)
    (h : d.Bounded limits n) :
    (d.advance δ room).state.Bounded limits (n + ((d.advance δ room).bytesOf Progress.payload).length) := by
  fun_induction Decoder.advance δ d room generalizing n with
  | case1 d r f =>
    rename_i hr
    have hs := (d.counts_step δ room).bounded hl h
    rwa [hr] at hs
  | case2 d r p =>
    rename_i hr
    have hs := (d.counts_step δ room).bounded hl h
    rwa [hr] at hs
  | case3 d r hr =>
    rename_i ih
    have hs := (d.counts_step δ room).bounded hl h
    rw [hr] at hs
    exact ih hs

private theorem Bounded.perform (hl : limits.body < maxSize) (δ : Dialect) {d : Decoder τ} (h : d.Bounded limits n)
    {op : Operation} (ho : ∀ l, op ≠ .next l) :
    (d.perform δ op).state.Bounded limits (n + ((d.perform δ op).bytesOf Answer.payload).length) := by
  rcases d.perform_cases δ op with ⟨room, rfl⟩ | ⟨l, rfl⟩ | ⟨hp, source, hs⟩
  · rw [payload_perform_read]
    exact (Bounded.advance hl δ d room h).withSource _
  · exact absurd rfl (ho l)
  · rw [hp, hs]
    exact h.withSource source

private theorem Bounded.finish (hl : limits.body < maxSize) (δ : Dialect) {d : Decoder τ} (h : d.Bounded limits n)
    {ops : List Operation} (ho : ∀ op ∈ ops, ∀ l, op ≠ .next l) :
    (d.finish δ ops).Bounded limits (n + (delivered (d.run δ ops)).length) := by
  induction ops generalizing d n with
  | nil => exact h
  | cons op ops ih =>
    obtain ⟨hop, hops⟩ := List.forall_mem_cons.1 ho
    have := ih (h.perform hl δ hop) hops
    rwa [run_cons, delivered_cons, List.length_append, ← Nat.add_assoc]

/-! ### Inside a read -/

/-- A read goes on from one decoder to the other, without an answer in between. -/
inductive Passes (δ : Dialect) (room : Nat) : Decoder τ → Decoder τ → Prop
  | refl (d : Decoder τ) : Passes δ room d d
  | step {d e : Decoder τ} (hr : (d.step δ room).result = .ok none) (h : Passes δ room (d.step δ room).state e) :
      Passes δ room d e

variable {δ : Dialect} {room : Nat}

private theorem Passes.bounded {d e : Decoder τ} (hp : Passes δ room d e) (hl : limits.body < maxSize)
    (h : d.Bounded limits n) : e.Bounded limits n := by
  induction hp with
  | refl d => exact h
  | @step d e hr _ ih =>
    have hs := (d.counts_step δ room).bounded hl h
    rw [hr] at hs
    exact ih hs

/-- What a read comes to is what it comes to from any place that it passes. -/
private theorem Passes.advance {d e : Decoder τ} (hp : Passes δ room d e) :
    (d.advance δ room).result = (e.advance δ room).result ∧ (d.advance δ room).state = (e.advance δ room).state := by
  induction hp with
  | refl d => exact ⟨rfl, rfl⟩
  | @step d e hr _ ih => rwa [advance_of_none hr, Outcome.result_after, Outcome.state_after]

/-- The bytes that a step hands over go exactly from one counter to the other. -/
private theorem Bounded.toNat_step {d : Decoder τ} (h : d.Bounded limits n) {bs : Bytes}
    (hr : (d.step δ room).result = .ok (some (.read bs))) :
    bs.length ≤ d.remaining.toNat ∧ (d.step δ room).state.remaining.toNat = d.remaining.toNat - bs.length ∧
      (d.step δ room).state.decoded.toNat = d.decoded.toNat + bs.length := by
  have hpayload : payloadOf (d.step δ room).result = bs := by rw [hr]; rfl
  cases d.counts_step δ room with
  | keeps _ hr' hd' hp =>
    obtain rfl : [] = bs := hp.symm.trans hpayload
    rw [hr', hd']
    exact ⟨Nat.zero_le _, rfl, rfl⟩
  | sets _ _ _ _ hn => simp [hn] at hr
  | moves hb _ hr' hd' hp =>
    obtain rfl := hp.symm.trans hpayload
    obtain ⟨hr'', hd''⟩ := h.toNat_moves hb
    rw [hr', hd']
    exact ⟨hb, hr'', hd''⟩

/-- A step that comes to a size line which gives too much fails there. -/
private theorem Bounded.step_of_exceeds {d : Decoder τ} (h : d.Bounded limits n) (room : Nat)
    (hl : limits.body < maxSize) (hp : d.phase = .size)
    (hc : (d.line.fill δ limits.chunkLine d.source).result = .ok .complete) {numeral : Bytes}
    (hn : IsSizeLine (d.line.fill δ limits.chunkLine d.source).state.1.content numeral)
    (hx : limits.chunk.toNat < numeralValue numeral ∨ limits.body.toNat < n + numeralValue numeral) :
    ∃ e, (d.step δ room).result = .error (.framing e) ∧ (d.step δ room).state.phase = .failed .size e ∧
      (d.step δ room).state.remaining = d.remaining ∧ (d.step δ room).state.decoded = d.decoded ∧
      ∀ size : UInt64, numeralValue numeral = size.toNat →
        e = if limits.chunk < size then .chunkTooLarge size limits.chunk
          else .bodyTooLarge (Limits.saturatingAdd d.decoded size) limits.body := by
  obtain ⟨rfl, -, rfl, -⟩ := h
  obtain ⟨e, he, hsize⟩ := Limits.refuses_of_exceeds hl hn hx
  have hstep : d.step δ room = (fail { d with
      line := (d.line.fill δ d.limits.chunkLine d.source).state.1
      source := (d.line.fill δ d.limits.chunkLine d.source).state.2 } e).after
        (d.line.fill δ d.limits.chunkLine d.source).events := by
    simp only [step, hp, withLine, hc, acceptSizeLine, he]
  rw [hstep]
  exact ⟨e, rfl, by simp [fail, Phase.fail, hp, Phase.marker], rfl, rfl, hsize⟩

/-- The counters keep to the limits. Let the limit of the body lie below the largest number of 64 bits, and let a
decoder have handed over `n` bytes in a run. Wherever the next read passes, what remains of the chunk is within the
limit of a chunk, the counter of the payload is exactly `n`, and both together are within the limit of the body. So no
counter wraps when bytes are handed over. A size line which gives too much makes the read fail before any byte of its
chunk is handed over, and with the error of the limit that it breaks, if it gives a number of 64 bits and thus a size
that an error can name. -/
theorem limits_hold (δ : Dialect) {limits : Limits} (hl : limits.body < maxSize) (source : Source τ)
    {ops : List Operation} (ho : ∀ op ∈ ops, ∀ l, op ≠ .next l) (room : Nat) :
    let d := (ofSource source limits).finish δ ops
    let n := (delivered ((ofSource source limits).run δ ops)).length
    ∀ e : Decoder τ, Passes δ room d e →
      e.Bounded limits n ∧
        (∀ bs, (e.step δ room).result = .ok (some (.read bs)) →
          bs.length ≤ e.remaining.toNat ∧
            (e.step δ room).state.remaining.toNat = e.remaining.toNat - bs.length ∧
            (e.step δ room).state.decoded.toNat = e.decoded.toNat + bs.length) ∧
        ∀ numeral, e.phase = .size → (e.line.fill δ limits.chunkLine e.source).result = .ok .complete →
          IsSizeLine (e.line.fill δ limits.chunkLine e.source).state.1.content numeral →
          limits.chunk.toNat < numeralValue numeral ∨ limits.body.toNat < n + numeralValue numeral →
          ∃ error, (d.read δ room).result = .error (.framing error) ∧
            (d.read δ room).state.phase = .failed .size error ∧ (d.read δ room).state.decoded = d.decoded ∧
            ∀ size : UInt64, numeralValue numeral = size.toNat →
              error = if limits.chunk < size then .chunkTooLarge size limits.chunk
                else .bodyTooLarge (Limits.saturatingAdd d.decoded size) limits.body := by
  intro d n e hpasses
  have hd : d.Bounded limits n := by
    simpa [d, n] using (bounded_ofSource source limits).finish hl δ ho
  have he : e.Bounded limits n := hpasses.bounded hl hd
  refine ⟨he, fun bs hr => he.toNat_step hr, fun numeral hp hc hn hx => ?_⟩
  have hdecoded : e.decoded = d.decoded := UInt64.toNat_inj.1 (he.decoded_eq.trans hd.decoded_eq.symm)
  obtain ⟨error, hr, hphase, -, hsame, hsize⟩ := he.step_of_exceeds room hl hp hc hn hx
  obtain ⟨hresult, hstate⟩ := hpasses.advance
  rw [advance_of_error hr] at hresult hstate
  rw [hdecoded] at hsame hsize
  refine ⟨error, hresult, ?_, ?_, hsize⟩
  · rw [read]
    simpa [hstate] using hphase
  · rw [read]
    simpa [hstate] using hsame

/-- A second chunk of three bytes, where the body may have five in all. -/
theorem limits_hold_of_two_chunks :
    let limits : Limits := { chunk := 4, body := 5 }
    let t : Fragments := ⟨[.fragment 51 [13, 10, 97, 98, 99, 13, 10, 51, 13, 10, 97, 98, 99]], false⟩
    let source := Source.ofBuffer (.ofStorage [0, 0]) t
    let ops : List Operation := [.read 2, .read 2]
    let d := (ofSource source limits).finish .strict ops
    let e := (d.step .strict 2).state
    e.Bounded limits 3 ∧ (d.read .strict 2).result = .error (.framing (.bodyTooLarge 6 5)) := by
  intro limits t source ops d e
  have hn : (delivered ((ofSource source limits).run .strict ops)).length = 3 := by decide +kernel
  have hdecoded : d.decoded = 3 := by decide +kernel
  obtain ⟨numeral, hnumeral, hv⟩ := SizeLine.size_eq_ok_iff.1 (show SizeLine.size
    (e.line.fill .strict limits.chunkLine e.source).state.1.content = .ok 3 by decide +kernel)
  obtain ⟨he, -, hrefuses⟩ := limits_hold .strict (show limits.body < maxSize by decide) source
    (show ∀ op ∈ ops, ∀ l, op ≠ .next l by simp [ops]) 2 e (.step (by decide +kernel) (.refl e))
  rw [hn] at he hrefuses
  obtain ⟨error, hr, -, -, herror⟩ :=
    hrefuses numeral (by decide +kernel) (by decide +kernel) hnumeral (.inr (by rw [hv]; decide))
  have hlimit := herror 3 hv
  rw [hdecoded] at hlimit
  exact ⟨he, by rw [hr, hlimit]; rfl⟩

end Decoder

end ChunkedTransfer
