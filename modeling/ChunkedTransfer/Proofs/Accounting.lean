import ChunkedTransfer.Proofs.Bounds
import ChunkedTransfer.Proofs.Phases

/-!
# The account of a body

Each size line announces the payload of its chunk, and says so in the log. What was announced is at any time what was
handed over and what remains of the chunk (`balances_step`), so that the log accounts for the counters of a decoder in
every run (`Accounted.finish`). The counter of the payload has 64 bits. A limit of the body that lies below the
largest number keeps it from going round (`Bounded.finish`). A limit at the largest number does not, since no sum is
found to be above it: size lines are then accepted whatever was handed over before (`account_of_body`).
-/

namespace ChunkedTransfer

open Grammar (IsSizeLine numeralValue)

/-! ### What a source logs -/

/-- What a source does by itself: it reads its transport, gives bytes away, and logs what came of the reads. -/
inductive Event.OfSource : Event → Prop
  | asked (room : Nat) (reply : Reply) : OfSource (.asked room reply)
  | taken (bs : Bytes) : OfSource (.taken bs)
  | refilled (count : Nat) : OfSource (.logged (.refilled count))
  | transportExhausted : OfSource (.logged .transportExhausted)

namespace Source

variable {τ : Type} [Transport τ]

theorem ofSource_receive (s : Source τ) : ∀ e ∈ s.receive.events, e.OfSource := by
  have hasked (rs : List Reply) : ∀ e ∈ rs.map (Event.asked s.buffer.space), e.OfSource := by
    simp only [List.mem_map, forall_exists_index, and_imp]
    rintro _ r - rfl
    exact .asked _ r
  unfold receive
  simp only
  split
  · exact List.forall_mem_append.2 ⟨hasked _, List.forall_mem_singleton.2 .transportExhausted⟩
  · exact List.forall_mem_append.2 ⟨hasked _, List.forall_mem_singleton.2 (.refilled _)⟩
  · exact hasked _

theorem ofSource_refill (s : Source τ) : ∀ e ∈ s.refill.events, e.OfSource := by
  unfold refill
  split
  · simp
  · split
    · simp
    · split
      · simp
      · exact s.recycle.ofSource_receive

theorem ofSource_replenish (s : Source τ) : ∀ e ∈ s.replenish.events, e.OfSource := by
  unfold replenish Outcome.andThen
  split
  · simp
  · split
    · simpa using ofSource_refill _
    · exact ofSource_refill _

theorem ofSource_read (s : Source τ) (room : Nat) : ∀ e ∈ (s.read room).events, e.OfSource := by
  unfold read Outcome.andThen
  split
  · simp
  · split
    · refine List.forall_mem_append.2 ⟨s.ofSource_replenish, ?_⟩
      simp only
      split
      · simp
      · exact List.forall_mem_singleton.2 (.taken _)
    · exact s.ofSource_replenish

end Source

theorem Line.ofSource_fill {τ : Type} [Transport τ] (δ : Dialect) (limit : Nat) (l : Line) (s : Source τ) :
    ∀ e ∈ (l.fill δ limit s).events, e.OfSource := by
  have hturn (l : Line) (s : Source τ) : ∀ e ∈ turnEvents δ limit l s, e.OfSource :=
    List.forall_mem_append.2 ⟨s.ofSource_replenish, List.forall_mem_singleton.2 (.taken _)⟩
  fun_induction fill δ limit l s with
  | case1 l s r f hr => exact s.ofSource_replenish
  | case2 l s r hr => exact s.ofSource_replenish
  | case3 l s r n hr a s' events e ha => exact hturn l s
  | case4 l s r n hr a s' events ha => exact hturn l s
  | case5 l s r n hr a s' events state ha hstate ih => exact List.forall_mem_append.2 ⟨hturn l s, ih⟩

/-! ### What size lines announce -/

/-- The size of a chunk whose size line was accepted. -/
def Event.chunkSize : Event → Nat
  | logged (.newChunk size) => size.toNat
  | _ => 0

/-- The sizes of all chunks whose size lines were accepted. -/
def chunkTotal (es : List Event) : Nat := (es.map Event.chunkSize).sum

@[simp] theorem chunkTotal_nil : chunkTotal [] = 0 := rfl

@[simp] theorem chunkTotal_append (es es' : List Event) : chunkTotal (es ++ es') = chunkTotal es + chunkTotal es' := by
  simp [chunkTotal]

@[simp] theorem chunkTotal_logged (r : Record) : chunkTotal [.logged r] = (Event.logged r).chunkSize := by
  simp [chunkTotal]

private theorem chunkTotal_eq_zero {es : List Event} (h : ∀ e ∈ es, e.OfSource) : chunkTotal es = 0 := by
  induction es with
  | nil => rfl
  | cons e es ih =>
    obtain ⟨he, hes⟩ := List.forall_mem_cons.1 h
    rw [← List.singleton_append, chunkTotal_append, ih hes]
    cases he <;> rfl

private theorem Source.chunkTotal_report {τ : Type} (s : Source τ) (result : Except Fault (Progress Nat)) :
    chunkTotal (s.report result).2 = 0 := by
  unfold report
  split
  · split <;> rfl
  · rfl
  · rfl

namespace Decoder

variable {τ : Type}

/-- What an outcome announces goes to what remains, and from there to the payload. -/
def Balances (d : Decoder τ) (r : StepOutcome τ) : Prop :=
  chunkTotal r.events + d.remaining.toNat = (payloadOf r.result).length + r.state.remaining.toNat

private theorem Balances.after {d : Decoder τ} {r : StepOutcome τ} (h : d.Balances r) {es : List Event}
    (he : ∀ e ∈ es, e.OfSource) : d.Balances (r.after es) := by
  rw [Balances, Outcome.events_after, chunkTotal_append, chunkTotal_eq_zero he, Nat.zero_add]
  exact h

/-- An outcome that announces nothing and hands nothing over leaves what remains. -/
private theorem balances_of_keeps {d : Decoder τ} {r : StepOutcome τ} (ha : chunkTotal r.events = 0)
    (hp : payloadOf r.result = []) (hr : r.state.remaining = d.remaining) : d.Balances r := by
  rw [Balances, ha, hp, hr, List.length_nil]

private theorem balances_stall (d : Decoder τ) (line : Line) (source : Source τ) :
    d.Balances (stall { d with line, source }) := by
  unfold stall
  split
  · exact balances_of_keeps rfl rfl rfl
  · exact balances_of_keeps rfl rfl rfl

/-- A size line is read where nothing remains, so that all of its size is new. -/
private theorem balances_acceptSizeLine {d : Decoder τ} (h : d.remaining = 0) : d.Balances d.acceptSizeLine := by
  unfold acceptSizeLine
  split
  · exact balances_of_keeps rfl rfl rfl
  · rename_i size _
    split
    · rename_i hz
      exact balances_of_keeps rfl rfl (hz.trans h.symm)
    · simp [Balances, h, payloadOf, Event.chunkSize]

private theorem balances_acceptTerminator (d : Decoder τ) : d.Balances d.acceptTerminator := by
  unfold acceptTerminator
  split
  · exact balances_of_keeps rfl rfl rfl
  · exact balances_of_keeps rfl rfl rfl

private theorem balances_acceptTrailerLine (δ : Dialect) (d : Decoder τ) : d.Balances (d.acceptTrailerLine δ) := by
  unfold acceptTrailerLine
  split
  · exact balances_of_keeps rfl rfl rfl
  · refine balances_of_keeps ?_ rfl rfl
    simp only [chunkTotal_logged, trailerRecord]
    split <;> rfl

/-! ### Accounts -/

/-- The account of a decoder that has handed over `n` bytes, when size lines have announced `total` bytes. -/
structure Accounted (limits : Limits) (n total : Nat) (d : Decoder τ) : Prop where
  coherent : d.Coherent
  limits_eq : d.limits = limits
  /-- The counter is exact as far as 64 bits go. -/
  decoded_eq : d.decoded.toNat = n % UInt64.size
  total_eq : n + d.remaining.toNat = total

theorem accounted_ofSource (source : Source τ) (limits : Limits) : (ofSource source limits).Accounted limits 0 0 :=
  ⟨coherent_ofSource source limits, rfl, rfl, rfl⟩

variable {limits : Limits} {n total : Nat} {δ : Dialect} {d : Decoder τ}

private theorem Accounted.withSource (h : d.Accounted limits n total) (source : Source τ) :
    Accounted limits n total { d with source } :=
  ⟨h.coherent.withSource source, h.limits_eq, h.decoded_eq, h.total_eq⟩

variable [Transport τ]

/-! ### Steps -/

private theorem balances_withLine (δ : Dialect) (limit : Nat) {accept : Decoder τ → StepOutcome τ} (d : Decoder τ)
    (ha : ∀ line source, d.Balances (accept { d with line, source })) : d.Balances (d.withLine δ limit accept) := by
  have hf := Line.ofSource_fill δ limit d.line d.source
  unfold withLine
  simp only
  split
  · exact balances_of_keeps (chunkTotal_eq_zero hf) rfl rfl
  · exact (balances_stall d _ _).after hf
  · exact (balances_of_keeps (d := d) rfl rfl rfl).after hf
  · exact (ha _ _).after hf

private theorem balances_handOver (d : Decoder τ) (room : Nat) : d.Balances (d.handOver room) := by
  have hf := d.source.ofSource_read (min room d.remaining.toNat)
  unfold handOver
  split
  · exact balances_of_keeps rfl rfl rfl
  · simp only
    split
    · exact balances_of_keeps (chunkTotal_eq_zero hf) rfl rfl
    · exact (balances_stall d _ _).after hf
    · rename_i b bs hr
      -- No more is handed over than remains.
      have hlength : (b :: bs).length ≤ d.remaining.toNat :=
        Nat.le_trans (Source.length_read_le hr) (Nat.min_le_right ..)
      simp only [Balances, chunkTotal_eq_zero hf, payloadOf, Progress.payload]
      rw [toNat_sub_toUInt64 hlength]
      omega

/-- What a step announces and what remained before are what it hands over and what remains after it. -/
theorem balances_step (δ : Dialect) {d : Decoder τ} (h : d.Coherent) (room : Nat) : d.Balances (d.step δ room) := by
  unfold step
  split
  · rename_i hp
    exact d.balances_withLine δ _ fun line source =>
      balances_acceptSizeLine (d := { d with line, source }) (h.remaining_of_size hp)
  · split
    · exact d.balances_handOver room
    · exact d.balances_withLine δ _ fun line source => balances_acceptTerminator { d with line, source }
  · exact d.balances_withLine δ _ fun line source => balances_acceptTrailerLine δ { d with line, source }
  · exact balances_of_keeps rfl rfl rfl
  · exact balances_of_keeps rfl rfl rfl

/-! ### Reads and runs -/

private theorem Accounted.step (h : d.Accounted limits n total) (δ : Dialect) (room : Nat) :
    (d.step δ room).state.Accounted limits (n + (payloadOf (d.step δ room).result).length)
      (total + chunkTotal (d.step δ room).events) := by
  obtain ⟨hcoherent, hlimits, hdecoded, htotal⟩ := h
  have hbalance := balances_step δ hcoherent room
  refine ⟨hcoherent.step δ room, ?_, ?_, ?_⟩
  · exact (d.counts_step δ room).limits_eq.trans hlimits
  · rw [d.decoded_step δ room, toNat_add_toUInt64, hdecoded, Nat.mod_add_mod]
  · simp only [Balances] at hbalance
    omega

private theorem Accounted.advance (δ : Dialect) (d : Decoder τ) (room : Nat) (h : d.Accounted limits n total) :
    (d.advance δ room).state.Accounted limits (n + ((d.advance δ room).bytesOf Progress.payload).length)
      (total + chunkTotal (d.advance δ room).events) := by
  fun_induction Decoder.advance δ d room generalizing total with
  | case1 d r f =>
    rename_i hr
    have hs := h.step δ room
    rwa [hr] at hs
  | case2 d r p =>
    rename_i hr
    have hs := h.step δ room
    rwa [hr] at hs
  | case3 d r hr =>
    rename_i ih
    have hs := h.step δ room
    rw [hr] at hs
    have := ih hs
    rwa [Nat.add_assoc, ← chunkTotal_append] at this

/-- An operation that does not read from the decoder is one of its source alone. -/
theorem ofSource_perform (δ : Dialect) (d : Decoder τ) (op : Operation) (hr : ∀ room, op ≠ .read room) :
    ∀ e ∈ (d.perform δ op).events, e.OfSource := by
  cases op with
  | read room => exact absurd rfl (hr room)
  | refill => exact d.source.ofSource_refill
  | take room => exact d.source.ofSource_read room
  | replenish => exact d.source.ofSource_replenish
  | noteUsedUp => simp [Decoder.perform]
  | markDraining => simp [Decoder.perform]
  | next limits => simp [Decoder.perform]

private theorem Accounted.perform (h : d.Accounted limits n total) (δ : Dialect) {op : Operation}
    (ho : ∀ l, op ≠ .next l) :
    (d.perform δ op).state.Accounted limits (n + ((d.perform δ op).bytesOf Answer.payload).length)
      (total + chunkTotal (d.perform δ op).events) := by
  by_cases hr : ∃ room, op = .read room
  · obtain ⟨room, rfl⟩ := hr
    rw [payload_perform_read]
    have hs := (Accounted.advance δ d room h).withSource
      ((d.advance δ room).state.source.report ((d.advance δ room).result.map (Progress.map List.length))).1
    simpa [Decoder.perform, Decoder.read, Source.chunkTotal_report] using hs
  · obtain ⟨hp, source, hs⟩ := d.perform_on_source δ op (fun room he => hr ⟨room, he⟩) ho
    have he : chunkTotal (d.perform δ op).events = 0 :=
      chunkTotal_eq_zero (d.ofSource_perform δ op fun room he => hr ⟨room, he⟩)
    rw [hp, hs, he]
    exact h.withSource source

theorem Accounted.finish (h : d.Accounted limits n total) (δ : Dialect) {ops : List Operation}
    (ho : ∀ op ∈ ops, ∀ l, op ≠ .next l) :
    (d.finish δ ops).Accounted limits (n + (delivered (d.run δ ops)).length)
      (total + chunkTotal (eventsOf (d.run δ ops))) := by
  induction ops generalizing d n total with
  | nil => exact h
  | cons op ops ih =>
    obtain ⟨hop, hops⟩ := List.forall_mem_cons.1 ho
    have := ih (h.perform δ hop) hops
    rwa [run_cons, delivered_cons, List.length_append, ← Nat.add_assoc, eventsOf_cons, chunkTotal_append,
      ← Nat.add_assoc]

/-! ### A body without limit -/

private theorem Accounted.of_passes {room : Nat} {d e : Decoder τ} (h : d.Accounted limits n total)
    (hp : Passes δ room d e) : ∃ total', e.Accounted limits n total' := by
  induction hp generalizing total with
  | refl d => exact ⟨total, h⟩
  | @step d e hr _ ih =>
    have hs := h.step δ room
    rw [hr] at hs
    exact ih hs

/-- A step that comes to a size line takes any size that the limit of a chunk admits, if the body may be as large as
64 bits can say. -/
private theorem Accounted.step_of_sizeLine {d : Decoder τ} (h : d.Accounted limits n total) (room : Nat)
    (hl : limits.body = maxSize) (hp : d.phase = .size)
    (hc : (d.line.fill δ limits.chunkLine d.source).result = .ok .complete) {numeral : Bytes}
    (hn : IsSizeLine (d.line.fill δ limits.chunkLine d.source).state.1.content numeral)
    (hx : numeralValue numeral ≤ limits.chunk.toNat) :
    (d.step δ room).result = .ok none ∧ (d.step δ room).state.remaining.toNat = numeralValue numeral ∧
      (d.step δ room).state.decoded = d.decoded := by
  obtain ⟨-, rfl, -, -⟩ := h
  have hlt := d.limits.chunk.toNat_lt
  obtain ⟨size, hv⟩ : ∃ size : UInt64, numeralValue numeral = size.toNat :=
    ⟨UInt64.ofNat (numeralValue numeral), (UInt64.toNat_ofNat_of_lt' (by simp only [UInt64.size]; omega)).symm⟩
  have hsize := SizeLine.size_eq_ok_iff.2 ⟨numeral, hn, hv⟩
  -- A sum that does not fit is cut off at the limit, and so it is not above it.
  have haccept : d.limits.accept d.decoded size = .ok size := by
    refine Limits.accept_eq_ok_iff.2 ⟨rfl, by omega, ?_⟩
    rw [hl]
    exact Nat.min_le_right _ _
  rw [hv]
  simp only [Decoder.step, hp, withLine, hc, acceptSizeLine, hsize, Except.bind, haccept, Outcome.result_after,
    Outcome.state_after]
  split
  · exact ⟨rfl, rfl, rfl⟩
  · exact ⟨rfl, rfl, rfl⟩

/-- What the counters say where the limit of the body is the largest number of 64 bits. In every run the payload that
was handed over and what remains of the chunk are together what the size lines announced, and the counter is the length
of the payload up to multiples of 2^64. So the counter and what remains add up to what was announced, as long as that
fits in 64 bits. Nothing sees to it that it does: wherever a read passes, a size line is accepted if its value is
within the limit of a chunk, whatever was handed over before. -/
theorem account_of_body (δ : Dialect) {limits : Limits} (hl : limits.body = maxSize) (source : Source τ)
    {ops : List Operation} (ho : ∀ op ∈ ops, ∀ l, op ≠ .next l) (room : Nat) :
    let d := (ofSource source limits).finish δ ops
    let n := (delivered ((ofSource source limits).run δ ops)).length
    let total := chunkTotal (eventsOf ((ofSource source limits).run δ ops))
    n + d.remaining.toNat = total ∧ d.decoded.toNat = n % UInt64.size ∧
      (total ≤ maxSize.toNat → d.decoded.toNat + d.remaining.toNat = total) ∧
      ∀ (e : Decoder τ) (numeral : Bytes), Passes δ room d e → e.phase = .size →
        (e.line.fill δ limits.chunkLine e.source).result = .ok .complete →
        IsSizeLine (e.line.fill δ limits.chunkLine e.source).state.1.content numeral →
        numeralValue numeral ≤ limits.chunk.toNat →
        (e.step δ room).result = .ok none ∧ (e.step δ room).state.remaining.toNat = numeralValue numeral ∧
          (e.step δ room).state.decoded = d.decoded := by
  intro d n total
  have hd : d.Accounted limits n total := by
    simpa [d, n, total] using (accounted_ofSource source limits).finish δ ho
  refine ⟨hd.total_eq, hd.decoded_eq, fun ht => ?_, fun e numeral hpasses hp hc hn hx => ?_⟩
  · have hsum := hd.total_eq
    have hmax : maxSize.toNat < UInt64.size := by decide
    rw [hd.decoded_eq, Nat.mod_eq_of_lt (by omega), hsum]
  · obtain ⟨total', he⟩ := hd.of_passes hpasses
    have hdecoded : e.decoded = d.decoded := UInt64.toNat_inj.1 (he.decoded_eq.trans hd.decoded_eq.symm)
    rw [← hdecoded]
    exact he.step_of_sizeLine room hl hp hc hn hx

/-- A chunk of one byte, and behind it a size line with the largest size. -/
theorem account_of_two_chunks :
    let t : Fragments := ⟨[.fragment 49 ([13, 10, 97, 13, 10] ++ List.replicate 16 102 ++ [13, 10])], false⟩
    let source := Source.ofBuffer (.ofStorage (List.replicate 64 0)) t
    let ops : List Operation := [.read 16]
    let d := (ofSource source {}).finish .strict ops
    let e := (d.step .strict 16).state
    d.decoded.toNat = 1 ∧ (e.step .strict 16).result = .ok none ∧
      (e.step .strict 16).state.remaining.toNat = maxSize.toNat ∧ (e.step .strict 16).state.decoded = d.decoded := by
  intro t source ops d e
  obtain ⟨-, hdecoded, -, haccept⟩ :=
    account_of_body .strict (show ({} : Limits).body = maxSize from rfl) source
      (show ∀ op ∈ ops, ∀ l, op ≠ .next l by simp [ops]) 16
  obtain ⟨numeral, hnumeral, hv⟩ := SizeLine.size_eq_ok_iff.1 (show SizeLine.size
    (e.line.fill .strict 1024 e.source).state.1.content = .ok maxSize by decide +kernel)
  have hline := haccept e numeral (.step (by decide +kernel) (.refl e)) (by decide +kernel) (by decide +kernel) hnumeral
    (by rw [hv])
  rw [hv] at hline
  have hn : (delivered ((ofSource source {}).run .strict ops)).length = 1 := by decide +kernel
  rw [hn] at hdecoded
  exact ⟨hdecoded, hline⟩

/-- So the counter and what remains may exceed the limit of the body, in a decoder that has not failed. -/
theorem body_limit_exceeded :
    let t : Fragments := ⟨[.fragment 49 ([13, 10, 97, 13, 10] ++ List.replicate 16 102 ++ [13, 10])], false⟩
    let d := (ofSource (.ofBuffer (.ofStorage (List.replicate 64 0)) t) {}).finish .strict [.read 16, .read 16]
    d.limits.body = maxSize ∧ d.phase.isFailed = false ∧ d.limits.body.toNat < d.decoded.toNat + d.remaining.toNat := by
  decide +kernel

end Decoder

end ChunkedTransfer
