import ChunkedTransfer.Proofs.Run
import ChunkedTransfer.Proofs.Scan

/-!
# Decoders and scans

A decoder is always where a scan of the bytes is that were taken out of its source (`Decoder.Agrees`). This holds
after every step and every read, and so after every run of reads and refills (`follows_run`): neither the cuts
between the pieces nor the room of the reads leave a mark on a decoder. A decoder that has failed agrees with a scan
that has refused a byte in the same phase, unless it failed because there were no more bytes.
-/

namespace ChunkedTransfer

/-- A phase in which bytes are read. -/
def PhaseMarker.IsReading (m : PhaseMarker) : Prop := m = size ∨ m = data ∨ m = trailers

/-- Operations of a reader that uses the source only to refill it. -/
def Operation.IsReading (op : Operation) : Prop := (∃ room, op = .read room) ∨ op = .refill

instance : DecidablePred Operation.IsReading := fun op =>
  match op with
  | .read room => isTrue (.inl ⟨room, rfl⟩)
  | .refill => isTrue (.inr rfl)
  | .take _ | .replenish | .noteUsedUp | .markDraining | .next _ => isFalse (by simp [Operation.IsReading])

/-- Errors in what a chunk-size line says. -/
def FramingError.isOfSizeLine : FramingError → Bool
  | emptySizeLine | invalidSize _ | sizeOverflow _ | chunkTooLarge _ _ | bodyTooLarge _ _ => true
  | bareLineFeed | missingChunkTerminator | lineTooLong _ _ | truncated _ => false

theorem SizeLine.isOfSizeLine_of_error {limits : Limits} {decoded : UInt64} {line : Bytes} {e : FramingError}
    (h : (SizeLine.size line).bind (limits.accept decoded) = .error e) : e.isOfSizeLine = true := by
  cases hs : SizeLine.size line with
  | error e' =>
    obtain rfl : e' = e := by simpa [hs, Except.bind] using h
    unfold SizeLine.size at hs
    split at hs
    · obtain rfl : _ = e' := by simpa using hs
      rfl
    · split at hs
      · obtain rfl : _ = e' := by simpa using hs
        rfl
      · split at hs
        · obtain rfl : _ = e' := by simpa using hs
          rfl
        · simp at hs
  | ok size =>
    simp only [hs, Except.bind, Limits.accept] at h
    split at h
    · obtain rfl : _ = e := by simpa using h
      rfl
    · split at h
      · obtain rfl : _ = e := by simpa using h
        rfl
      · simp at h

/-- A phase and a line of a decoder that go with a scan. -/
inductive Scan.Stands (s : Scan) (l : Line) : Phase → Prop
  | running {p : Phase} (hp : p.isFailed = false) (hr : s.rejected = false) (hm : s.phase = p.marker) (ho : l.IsOpen)
      (hl : s.line = l.content) : Stands s l p
  | truncated (hr : s.rejected = false) (hm : s.phase.IsReading) (ho : l.IsOpen) (hl : s.line = l.content) :
      Stands s l (.failed s.phase (.truncated s.phase))
  | malformed {e : FramingError} (he : ∀ p, e ≠ .truncated p) (hr : s.rejected = true) (hm : s.phase.IsReading) :
      Stands s l (.failed s.phase e)

theorem Scan.Stands.of_running {s : Scan} {l : Line} {p : Phase} (h : s.Stands l p) (hp : p.isFailed = false) :
    s.rejected = false ∧ s.phase = p.marker ∧ l.IsOpen ∧ s.line = l.content := by
  cases h with
  | running hp' hr hm ho hl => exact ⟨hr, hm, ho, hl⟩
  | truncated => simp [Phase.isFailed] at hp
  | malformed => simp [Phase.isFailed] at hp

/-- No decoder stands where a byte was refused after the end of the body. -/
theorem Scan.Stands.isReading_of_rejected {s : Scan} {l : Line} {p : Phase} (h : s.Stands l p)
    (hr : s.rejected = true) : s.phase.IsReading := by
  cases h with
  | running _ hr' => simp [hr'] at hr
  | truncated hr' => simp [hr'] at hr
  | malformed _ _ hm => exact hm

namespace Decoder

variable {τ α : Type}

/-- The decoder is where the scan is. -/
structure Agrees (d : Decoder τ) (s : Scan) : Prop where
  remaining : d.remaining.toNat = s.remaining
  decoded : d.decoded = s.payload.length.toUInt64
  trailers : d.trailers = s.trailers.toUInt64
  stands : s.Stands d.line d.phase

theorem agrees_ofSource (source : Source τ) (limits : Limits) : (ofSource source limits).Agrees {} where
  remaining := rfl
  decoded := rfl
  trailers := rfl
  stands := .running rfl rfl rfl Line.isOpen_empty rfl

/-- The outcome of something that a decoder does goes with the scan of the bytes that were taken for it, and its
payload with that of the scan. -/
structure Follows (δ : Dialect) (d : Decoder τ) (s : Scan) (r : Outcome (Decoder τ) α) (payload : Bytes) : Prop where
  agrees : r.state.Agrees (s.feed δ d.limits (consumed r.events))
  payload_eq : (s.feed δ d.limits (consumed r.events)).payload = s.payload ++ payload
  limits_eq : r.state.limits = d.limits

private theorem Follows.trans {δ : Dialect} {d : Decoder τ} {s : Scan} {r : Outcome (Decoder τ) α} {β : Type}
    {r' : Outcome (Decoder τ) β} {payload payload' : Bytes} (h : Follows δ d s r payload)
    (h' : Follows δ r.state (s.feed δ d.limits (consumed r.events)) r' payload') :
    Follows δ d s (r'.after r.events) (payload ++ payload') := by
  obtain ⟨-, hp, hl⟩ := h
  obtain ⟨ha', hp', hl'⟩ := h'
  rw [hl] at ha' hp' hl'
  constructor
  · simpa [Scan.feed_append] using ha'
  · rw [Outcome.events_after, consumed_append, Scan.feed_append, hp', hp, List.append_assoc]
  · exact hl'

/-- What is taken for nothing, and leaves the decoder as it is but for its source, is followed. -/
private theorem follows_of_consumed_nil {δ : Dialect} {d : Decoder τ} {s : Scan} {r : Outcome (Decoder τ) α}
    (hc : consumed r.events = []) (ha : r.state.Agrees s) (hl : r.state.limits = d.limits) :
    Follows δ d s r [] :=
  ⟨by rwa [hc], by rw [hc]; simp, hl⟩

theorem Agrees.withSource {d : Decoder τ} {s : Scan} (h : d.Agrees s) (source : Source τ) :
    Agrees { d with source } s := ⟨h.remaining, h.decoded, h.trailers, h.stands⟩

private theorem Agrees.withLine {d : Decoder τ} {s : Scan} (h : d.Agrees s) (hp : d.phase.isFailed = false)
    {line : Line} (ho : line.IsOpen) (source : Source τ) :
    Agrees { d with line, source } { s with line := line.content } := by
  obtain ⟨hr, hm, -, -⟩ := h.stands.of_running hp
  exact ⟨h.remaining, h.decoded, h.trailers, .running hp hr hm ho rfl⟩

/-! ### Failing -/

private theorem agrees_fail {d : Decoder τ} {s : Scan} {e : FramingError} (h : d.Agrees s)
    (hp : d.phase.isFailed = false) (hm : s.phase.IsReading) (he : ∀ p, e ≠ .truncated p) (line : Line)
    (source : Source τ) : (fail { d with line, source } e : Outcome (Decoder τ) α).state.Agrees s.reject := by
  refine ⟨h.remaining, h.decoded, h.trailers, ?_⟩
  obtain ⟨-, hm', -, -⟩ := h.stands.of_running hp
  simp only [fail, Phase.fail, ← hm']
  exact .malformed (s := s.reject) he rfl hm

/-! ### Lines -/

/-- The verdict on a size line is never that the body was cut short. -/
theorem ne_truncated_of_sizeLine {limits : Limits} {decoded : UInt64} {line : Bytes} {e : FramingError}
    (h : (SizeLine.size line).bind (limits.accept decoded) = .error e) (p : PhaseMarker) : e ≠ .truncated p := by
  rintro rfl
  simpa [FramingError.isOfSizeLine] using SizeLine.isOfSizeLine_of_error h

/-- What accepting a line has come to goes with where the scan is afterwards. -/
structure Accepts (d : Decoder τ) (s : Scan) (r : StepOutcome τ) (s' : Scan) : Prop where
  agrees : r.state.Agrees s'
  consumed_eq : consumed r.events = []
  limits_eq : r.state.limits = d.limits
  payload_eq : s'.payload = s.payload
  ne_read : ∀ bs, r.result ≠ .ok (some (.read bs))

private theorem accepts_fail {d : Decoder τ} {s : Scan} {e : FramingError} (h : d.Agrees s)
    (hp : d.phase.isFailed = false) (hm : s.phase.IsReading) (he : ∀ p, e ≠ .truncated p) (line : Line)
    (source : Source τ) : d.Accepts s (fail { d with line, source } e) s.reject where
  agrees := agrees_fail h hp hm he line source
  consumed_eq := rfl
  limits_eq := rfl
  payload_eq := rfl
  ne_read := by simp [fail]

private theorem accepts_stall {d : Decoder τ} {s : Scan} (h : d.Agrees s) (hp : d.phase.isFailed = false)
    (hm : s.phase.IsReading) {line : Line} (ho : line.IsOpen) (source : Source τ) :
    d.Accepts s (stall { d with line, source }) { s with line := line.content } := by
  have h' := h.withLine hp ho source
  obtain ⟨hr, hm', -, -⟩ := h.stands.of_running hp
  unfold stall
  split
  · refine ⟨⟨h.remaining, h.decoded, h.trailers, ?_⟩, rfl, rfl, rfl, by simp [fail]⟩
    simp only [fail, Phase.fail, ← hm']
    exact .truncated (s := { s with line := line.content }) hr hm ho rfl
  · exact ⟨h', rfl, rfl, rfl, by simp⟩

/-- A step that goes on after a line is accepted if the decoder agrees with the scan after the line. -/
private theorem accepts_goOn {d e : Decoder τ} {s s' : Scan} {es : List Event} (ha : e.Agrees s')
    (hc : consumed es = []) (hl : e.limits = d.limits) (hp : s'.payload = s.payload) :
    d.Accepts s ⟨.ok none, e, es⟩ s' where
  agrees := ha
  consumed_eq := hc
  limits_eq := hl
  payload_eq := hp
  ne_read := by simp

theorem accepts_sizeLine {d : Decoder τ} {s : Scan} (h : d.Agrees s) (hp : d.phase = .size) (line : Line)
    (source : Source τ) :
    d.Accepts s (acceptSizeLine { d with line, source }) (s.acceptSizeLine d.limits line.content) := by
  obtain ⟨hr, hm, -, -⟩ := h.stands.of_running (by rw [hp]; rfl)
  unfold acceptSizeLine Scan.acceptSizeLine
  rw [← h.decoded]
  simp only
  cases hv : (SizeLine.size line.content).bind (d.limits.accept d.decoded) with
  | error e =>
    have hreading : s.phase.IsReading := by
      rw [hm, hp]
      exact .inl rfl
    exact accepts_fail h (by rw [hp]; rfl) hreading (ne_truncated_of_sizeLine hv) _ _
  | ok size =>
    by_cases hz : size = 0
    · simp only [if_pos hz]
      refine accepts_goOn ?_ rfl rfl rfl
      exact ⟨rfl, h.decoded, h.trailers, .running rfl hr rfl Line.isOpen_empty rfl⟩
    · simp only [if_neg hz]
      refine accepts_goOn ?_ rfl rfl rfl
      exact ⟨rfl, h.decoded, h.trailers, .running rfl hr rfl Line.isOpen_empty rfl⟩

theorem accepts_terminator {d : Decoder τ} {s : Scan} (h : d.Agrees s) (hp : d.phase = .data) (line : Line)
    (source : Source τ) :
    d.Accepts s (acceptTerminator { d with line, source }) (s.acceptTerminator line.content) := by
  obtain ⟨hr, hm, -, -⟩ := h.stands.of_running (by rw [hp]; rfl)
  unfold acceptTerminator Scan.acceptTerminator
  by_cases hl : line.content = []
  · simp only [hl, List.isEmpty_nil, if_pos]
    refine accepts_goOn ?_ rfl rfl rfl
    exact ⟨h.remaining, h.decoded, h.trailers, .running rfl hr rfl Line.isOpen_empty rfl⟩
  · rw [if_neg (by simpa using hl), if_neg hl]
    have hreading : s.phase.IsReading := by
      rw [hm, hp]
      exact .inr (.inl rfl)
    exact accepts_fail h (by rw [hp]; rfl) hreading (by simp) _ _

theorem accepts_trailerLine (δ : Dialect) {d : Decoder τ} {s : Scan} (h : d.Agrees s) (hp : d.phase = .trailers)
    (line : Line) (source : Source τ) :
    d.Accepts s (acceptTrailerLine δ { d with line, source }) (s.acceptTrailerLine line.content) := by
  obtain ⟨hr, hm, -, -⟩ := h.stands.of_running (by rw [hp]; rfl)
  unfold acceptTrailerLine Scan.acceptTrailerLine
  by_cases hl : line.content = []
  · simp only [hl, List.isEmpty_nil, if_pos]
    refine accepts_goOn ?_ rfl rfl rfl
    exact ⟨h.remaining, h.decoded, h.trailers, .running rfl hr rfl Line.isOpen_empty rfl⟩
  · rw [if_neg (by simpa using hl), if_neg hl]
    have ht : d.trailers + 1 = (s.trailers + 1).toUInt64 := by
      rw [h.trailers]
      simp
    refine accepts_goOn ?_ rfl rfl rfl
    exact ⟨h.remaining, h.decoded, ht, .running (by rw [hp]; rfl) hr hm Line.isOpen_empty rfl⟩

/-- The payload in what a step comes to. -/
def payloadOf (result : Except Fault (Option (Progress Bytes))) : Bytes :=
  match result with
  | .ok (some p) => p.payload
  | _ => []

theorem payloadOf_of_ne_read {result : Except Fault (Option (Progress Bytes))}
    (h : ∀ bs, result ≠ .ok (some (.read bs))) : payloadOf result = [] := by
  match result with
  | .ok (some (.read bs)) => exact absurd rfl (h bs)
  | .ok (some .pending) => rfl
  | .ok (some .ended) => rfl
  | .ok none => rfl
  | .error f => rfl

/-- A line that was accepted, or refused, is followed with the bytes that made it. -/
private theorem Accepts.follows {δ : Dialect} {d : Decoder τ} {s s' : Scan} {r : StepOutcome τ} {es : List Event}
    (h : d.Accepts s r s') (hf : s.feed δ d.limits (consumed es) = s') :
    Follows δ d s (r.after es) (payloadOf (r.after es).result) := by
  have hc : consumed (r.after es).events = consumed es := by simp [h.consumed_eq]
  constructor
  · rw [hc, hf]
    exact h.agrees
  · rw [hc, hf, h.payload_eq, Outcome.result_after, payloadOf_of_ne_read h.ne_read, List.append_nil]
  · exact h.limits_eq

variable [Transport τ]

private theorem follows_withLine {δ : Dialect} {limit : Nat} {d : Decoder τ} {s : Scan}
    {accept : Decoder τ → StepOutcome τ} {acceptScan : Scan → Bytes → Scan} (h : d.Agrees s)
    (hp : d.phase.isFailed = false) (hm : s.phase.IsReading) (hs : s.ReadsLine δ d.limits limit acceptScan)
    (ha : ∀ line source, d.Accepts s (accept { d with line, source }) (acceptScan s line.content)) :
    Follows δ d s (d.withLine δ limit accept) (payloadOf (d.withLine δ limit accept).result) := by
  obtain ⟨-, -, ho, hl⟩ := h.stands.of_running hp
  have hf := Line.framing_fill δ limit d.source ho
  rw [← hl] at hf
  unfold withLine
  simp only
  split
  · rename_i f hres
    simp only [hres] at hf
    have hfeed := hs.feed_of_framing hf
    exact ⟨by rw [hfeed]; exact h.withLine hp hf.isOpen _, by rw [hfeed]; simp [payloadOf], rfl⟩
  · rename_i hres
    simp only [hres] at hf
    exact (accepts_stall h hp hm hf.isOpen _).follows (hs.feed_of_framing hf)
  · rename_i e hres
    simp only [hres] at hf
    exact (accepts_fail h hp hm hf.ne_truncated _ _).follows (hs.feed_of_framing hf)
  · rename_i hres
    simp only [hres] at hf
    exact (ha _ _).follows (hs.feed_of_framing hf)

/-! ### Payload -/

/-- A counter from which no more is taken than it has. -/
theorem toNat_sub_toUInt64 {n : UInt64} {m : Nat} (h : m ≤ n.toNat) : (n - m.toUInt64).toNat = n.toNat - m := by
  have hlt := n.toNat_lt
  have hm : m.toUInt64.toNat = m := UInt64.toNat_ofNat_of_lt' (by simp only [UInt64.size]; omega)
  rw [UInt64.toNat_sub_of_le _ _ (UInt64.le_iff_toNat_le.2 (by omega)), hm]

theorem toNat_add_toUInt64 (n : UInt64) (m : Nat) : (n + m.toUInt64).toNat = (n.toNat + m) % UInt64.size := by
  rw [UInt64.toNat_add, Nat.toUInt64, UInt64.toNat_ofNat', Nat.add_mod_mod]

private theorem follows_handOver {δ : Dialect} {d : Decoder τ} {s : Scan} (h : d.Agrees s) (hp : d.phase = .data)
    (room : Nat) : Follows δ d s (d.handOver room) (payloadOf (d.handOver room).result) := by
  obtain ⟨hr, hm, ho, hl⟩ := h.stands.of_running (by rw [hp]; rfl)
  have hc := d.source.consumed_read (min room d.remaining.toNat)
  unfold handOver
  split
  · exact follows_of_consumed_nil rfl h rfl
  · simp only
    split
    · rename_i f hres
      rw [Outcome.bytesOf_of_error hres] at hc
      exact follows_of_consumed_nil hc (h.withSource _) rfl
    · rename_i hres
      rw [Outcome.bytesOf_of_ok hres, id] at hc
      have hst := accepts_stall h (by rw [hp]; rfl) (by rw [hm, hp]; exact .inr (.inl rfl)) ho
        (d.source.read (min room d.remaining.toNat)).state
      exact hst.follows (by rw [hc, Scan.feed_nil, ← hl])
    · rename_i b bs hres
      rw [Outcome.bytesOf_of_ok hres, id] at hc
      -- No more is handed over than remains of the chunk, so that no counter goes below zero.
      have hlen : (b :: bs).length ≤ d.remaining.toNat :=
        Nat.le_trans (Source.length_read_le hres) (Nat.min_le_right ..)
      have hfeed : s.feed δ d.limits (b :: bs) = _ := Scan.feed_payload hr (by rw [hm, hp]; rfl)
        (by rwa [← h.remaining])
      constructor
      · rw [hc, hfeed]
        constructor
        · simp only
          rw [toNat_sub_toUInt64 hlen, h.remaining]
        · simp only
          rw [h.decoded, List.length_append]
          exact (UInt64.ofNat_add _ _).symm
        · exact h.trailers
        · exact .running (by rw [hp]; rfl) hr hm ho hl
      · rw [hc, hfeed]
        rfl
      · rfl

/-! ### Steps, reads and runs -/

theorem follows_step (δ : Dialect) {d : Decoder τ} {s : Scan} (h : d.Agrees s) (room : Nat) :
    Follows δ d s (d.step δ room) (payloadOf (d.step δ room).result) := by
  unfold step
  split
  · rename_i hp
    obtain ⟨hr, hm, -, -⟩ := h.stands.of_running (by rw [hp]; rfl)
    rw [hp] at hm
    exact follows_withLine h (by rw [hp]; rfl) (.inl hm) (Scan.readsLine_size hr hm) (accepts_sizeLine h hp)
  · rename_i hp
    split
    · exact follows_handOver h hp room
    · rename_i hz
      obtain ⟨hr, hm, -, -⟩ := h.stands.of_running (by rw [hp]; rfl)
      rw [hp] at hm
      have hz' : s.remaining = 0 := by
        rw [← h.remaining]
        simpa [UInt64.lt_iff_toNat_lt] using hz
      exact follows_withLine h (by rw [hp]; rfl) (.inr (.inl hm)) (Scan.readsLine_terminator hr hm hz')
        (accepts_terminator h hp)
  · rename_i hp
    obtain ⟨hr, hm, -, -⟩ := h.stands.of_running (by rw [hp]; rfl)
    rw [hp] at hm
    exact follows_withLine h (by rw [hp]; rfl) (.inr (.inr hm)) (Scan.readsLine_trailers hr hm)
      (accepts_trailerLine δ h hp)
  · exact follows_of_consumed_nil rfl h rfl
  · exact follows_of_consumed_nil rfl h rfl

private theorem follows_advance (δ : Dialect) (d : Decoder τ) (room : Nat) {s : Scan} (h : d.Agrees s) :
    Follows δ d s (d.advance δ room) ((d.advance δ room).bytesOf Progress.payload) := by
  fun_induction advance δ d room generalizing s with
  | case1 d r f =>
    rename_i hr
    have hs := follows_step δ h room
    rw [hr] at hs
    exact ⟨hs.agrees, hs.payload_eq, hs.limits_eq⟩
  | case2 d r p =>
    rename_i hr
    have hs := follows_step δ h room
    rw [hr] at hs
    exact ⟨hs.agrees, hs.payload_eq, hs.limits_eq⟩
  | case3 d r hr =>
    rename_i ih
    have hs := follows_step δ h room
    rw [hr] at hs
    exact hs.trans (ih hs.agrees)

/-- A read or a refill is followed, with the payload that it hands over. -/
theorem follows_perform (δ : Dialect) {d : Decoder τ} {s : Scan} (h : d.Agrees s) {op : Operation} (ho : op.IsReading) :
    Follows δ d s (d.perform δ op) ((d.perform δ op).bytesOf Answer.payload) := by
  rcases ho with ⟨room, rfl⟩ | rfl
  · have ha := follows_advance δ d room h
    rw [payload_perform_read]
    constructor
    · simpa [perform, read] using ha.agrees.withSource _
    · simpa [perform, read] using ha.payload_eq
    · exact ha.limits_eq
  · rw [(d.perform_on_source δ .refill (by simp) (by simp)).1]
    exact follows_of_consumed_nil d.source.consumed_refill (h.withSource _) rfl

/-- Reads and refills keep the limits of a decoder. -/
theorem limits_finish (δ : Dialect) {d : Decoder τ} {s : Scan} (h : d.Agrees s) {ops : List Operation}
    (ho : ∀ op ∈ ops, op.IsReading) : (d.finish δ ops).limits = d.limits := by
  induction ops generalizing d s with
  | nil => rfl
  | cons op ops ih =>
    obtain ⟨hop, hops⟩ := List.forall_mem_cons.1 ho
    have hf := follows_perform δ h hop
    exact (ih hf.agrees hops).trans hf.limits_eq

/-- After a run of reads and refills the decoder is where the scan of all bytes is that were taken, and what it has
delivered is the payload of the scan. -/
theorem follows_run (δ : Dialect) {d : Decoder τ} {s : Scan} (h : d.Agrees s) {ops : List Operation}
    (ho : ∀ op ∈ ops, op.IsReading) :
    (d.finish δ ops).Agrees (s.feed δ d.limits (consumed (eventsOf (d.run δ ops)))) ∧
      (s.feed δ d.limits (consumed (eventsOf (d.run δ ops)))).payload = s.payload ++ delivered (d.run δ ops) := by
  induction ops generalizing d s with
  | nil => exact ⟨h, by simp⟩
  | cons op ops ih =>
    obtain ⟨hop, hops⟩ := List.forall_mem_cons.1 ho
    have hf := follows_perform δ h hop
    obtain ⟨ha, hp⟩ := ih hf.agrees hops
    rw [hf.limits_eq] at ha hp
    simp only [run_cons, finish_cons, eventsOf_cons, consumed_append, Scan.feed_append]
    refine ⟨ha, ?_⟩
    rw [hp, hf.payload_eq, List.append_assoc, delivered_cons]

end Decoder

end ChunkedTransfer
