import ChunkedTransfer.Grammar.Body
import ChunkedTransfer.Proofs.SizeLine
import ChunkedTransfer.Proofs.Stream

/-!
# Round trip

A scan of the bytes of a well-formed body ends exactly at their end, with the payload of the body (`feed_encode`).
A decoder that reads these bytes from fragments goes with this scan. It can neither fail nor find the body cut short
in front of the end (`Draws.ok_of_mem_run`), so that enough reads come to the end (`Draws.exists_ended`). It cannot go
beyond, so it has delivered the payload there and leaves what follows the body (`Draws.of_ended`, `round_trip`).
-/

namespace ChunkedTransfer

open Grammar (Body Chunk Framed encodeLine)

namespace Scan

variable {δ : Dialect} {limits : Limits}

/-! ### The parts of a body -/

private theorem feed_encodeLine {limit : Nat} {accept : Scan → Bytes → Scan} {s : Scan}
    (h : s.ReadsLine δ limits limit accept) (hl : s.line = []) {line : Bytes} (hf : Framed limit line) :
    s.feed δ limits (encodeLine line) = accept s line := by
  have he : encodeLine line = line ++ [carriageReturn] ++ [lineFeed] := by simp [encodeLine]
  have hb : lineFeed ∉ line ++ [carriageReturn] := by
    simpa [carriageReturn, lineFeed] using hf.1
  rw [he]
  exact h.feed_complete s.line hb (by rw [hl]; exact δ.content?_append_carriageReturn line) hf.2

/-- A size line within the limits is accepted. -/
private theorem acceptSizeLine_eq {s : Scan} {line numeral : Bytes} {n : Nat} (hl : Grammar.IsSizeLine line numeral)
    (hn : Grammar.numeralValue numeral = n) (hc : n ≤ limits.chunk.toNat)
    (hb : s.payload.length + n ≤ limits.body.toNat) :
    s.acceptSizeLine limits line =
      { s with line := [], remaining := n, phase := if n = 0 then .trailers else .data } := by
  have hlt := limits.body.toNat_lt
  have htoNat {m : Nat} (hm : m ≤ limits.body.toNat) : m.toUInt64.toNat = m :=
    UInt64.toNat_ofNat_of_lt' (by simp only [UInt64.size]; omega)
  have hsize : SizeLine.size line = .ok n.toUInt64 :=
    SizeLine.size_eq_ok_iff.2 ⟨numeral, hl, by rw [hn, htoNat (by omega)]⟩
  have haccept : limits.accept s.payload.length.toUInt64 n.toUInt64 = .ok n.toUInt64 := by
    refine Limits.accept_eq_ok_iff.2 ⟨rfl, ?_, ?_⟩
    · rwa [htoNat (by omega)]
    · rw [htoNat (by omega), htoNat (by omega)]
      omega
  have hz : n.toUInt64 = 0 ↔ n = 0 := by
    rw [← UInt64.toNat_inj, htoNat (by omega)]
    rfl
  unfold acceptSizeLine
  rw [hsize]
  simp only [Except.bind, haccept, htoNat (show n ≤ limits.body.toNat by omega), hz]

private theorem feed_chunk {c : Chunk} (hw : c.WellFormed limits) {payload : Bytes}
    (hb : payload.length + c.payload.length ≤ limits.body.toNat) :
    feed δ limits { payload } c.encode = { payload := payload ++ c.payload } := by
  obtain ⟨numeral, hl, hn⟩ := hw.size
  have hne : c.payload.length ≠ 0 := fun h => hw.nonempty (List.length_eq_zero_iff.1 h)
  rw [Chunk.encode, feed_append, feed_append, feed_encodeLine (readsLine_size rfl rfl) rfl hw.framed,
    acceptSizeLine_eq hl hn hw.length_le hb, if_neg hne]
  simp only
  rw [feed_payload (s := { phase := .data, remaining := c.payload.length, payload }) rfl rfl (Nat.le_refl _)]
  simp only [Nat.sub_self]
  rw [feed_encodeLine (readsLine_terminator rfl rfl rfl) rfl ⟨by simp, Nat.zero_le _⟩, acceptTerminator, if_pos rfl]

private theorem feed_chunks {cs : List Chunk} (hw : ∀ c ∈ cs, c.WellFormed limits) {payload : Bytes}
    (hb : (payload ++ cs.flatMap Chunk.payload).length ≤ limits.body.toNat) :
    feed δ limits { payload } (cs.flatMap Chunk.encode) = { payload := payload ++ cs.flatMap Chunk.payload } := by
  induction cs generalizing payload with
  | nil => simp
  | cons c cs ih =>
    obtain ⟨hc, hcs⟩ := List.forall_mem_cons.1 hw
    simp only [List.flatMap_cons, List.length_append] at hb ⊢
    rw [feed_append, feed_chunk hc (by omega), ih hcs (by simp only [List.length_append]; omega), List.append_assoc]

private theorem feed_trailers {ts : List Bytes} (hw : ∀ t ∈ ts, t ≠ [] ∧ Framed limits.trailerLine t) (payload : Bytes)
    (n : Nat) :
    feed δ limits { phase := .trailers, payload, trailers := n } (ts.flatMap encodeLine) =
      { phase := .trailers, payload, trailers := n + ts.length } := by
  induction ts generalizing n with
  | nil => simp
  | cons t ts ih =>
    obtain ⟨⟨hne, hf⟩, hts⟩ := List.forall_mem_cons.1 hw
    rw [List.flatMap_cons, feed_append, feed_encodeLine (readsLine_trailers rfl rfl) rfl hf, acceptTrailerLine,
      if_neg hne]
    simp only
    rw [ih hts, List.length_cons]
    congr 1
    omega

/-- A body is scanned to its end, and no further. -/
theorem feed_encode {body : Body} (hw : body.WellFormed limits) : feed δ limits {} body.encode =
    { phase := .terminated, payload := body.payload, trailers := body.trailers.length } := by
  obtain ⟨numeral, hl, hn⟩ := hw.last
  rw [Body.encode, feed_append, feed_append, feed_append,
    show feed δ limits {} (body.chunks.flatMap Chunk.encode) = { payload := body.payload } from
      feed_chunks hw.chunks hw.total_le,
    feed_encodeLine (readsLine_size rfl rfl) rfl hw.last_framed,
    acceptSizeLine_eq hl hn (Nat.zero_le _) hw.total_le, if_pos rfl, feed_trailers hw.trailers, Nat.zero_add,
    feed_encodeLine (readsLine_trailers rfl rfl) rfl ⟨by simp, Nat.zero_le _⟩, acceptTrailerLine, if_pos rfl]

/-- In front of its end a body is neither refused nor complete. -/
private theorem feed_front {body : Body} (hw : body.WellFormed limits) {bs rest : Bytes} (he : body.encode = bs ++ rest)
    (hr : rest ≠ []) : (feed δ limits {} bs).rejected = false ∧ (feed δ limits {} bs).phase ≠ .terminated := by
  have hf := feed_encode (δ := δ) hw
  rw [he] at hf
  exact front_of_not_rejected (by rw [hf]) hr

end Scan

/-- Fragments answer with no fault but that they would block. -/
private theorem Fragments.kind_of_read (t : Fragments) (room : Nat) :
    ∀ f, (Transport.read t room).1 = .fault f → f.kind = .wouldBlock := by
  intro f hf
  simp only [Transport.read, read] at hf
  split at hf
  · simp at hf
  · obtain rfl : _ = f := by simpa using hf
    rfl
  · split at hf
    · simp [Reply.ended] at hf
    · obtain rfl : _ = f := by simpa using hf
      rfl

namespace Decoder

section

variable {δ : Dialect} {body : Body} {suffix bs : Bytes}

/-- A decoder that has drawn from a stream which begins with a body is somewhere within the body, and there is more
of it to come, or it is at the end. -/
private theorem Draws.within {τ : Type} [Transport τ] [Script τ] {d : Decoder τ}
    (h : d.Draws δ (body.encode ++ suffix) bs) (hw : body.WellFormed d.limits) :
    (d.phase.marker.IsReading ∧ d.source.unread ≠ []) ∨
      (d.phase = .terminated ∧ bs = body.encode ∧ d.source.unread = suffix) := by
  have hagrees := h.tracks.agrees
  -- After all of the body, and nothing else, the decoder is at the end.
  have hend (hb : bs = body.encode) : d.phase = .terminated := by
    rw [hb, Scan.feed_encode hw] at hagrees
    rcases d.phase_cases with hp | hp | ⟨m, e, hp⟩
    · have := (hagrees.of_isReading hp).2
      simp [PhaseMarker.IsReading] at this
    · exact hp
    · obtain ⟨rfl, hm, -⟩ := hagrees.of_failed hp
      simp [PhaseMarker.IsReading] at hm
  rcases List.append_eq_append_iff.1 h.stream_eq with ⟨rest, hb, hu⟩ | ⟨rest, hb, hu⟩
  · -- The bytes taken are a front of the body.
    by_cases hr : rest = []
    · have hb' : bs = body.encode := by simp [hb, hr]
      have hu' : d.source.unread = suffix := by simp [hu, hr]
      exact .inr ⟨hend hb', hb', hu'⟩
    · obtain ⟨hrejected, hm⟩ := Scan.feed_front (δ := δ) hw hb hr
      have hne : d.source.unread ≠ [] := by simp [hu, hr]
      rcases d.phase_cases with hp | hp | ⟨m, e, hp⟩
      · exact .inl ⟨hp, hne⟩
      · exact absurd (hagrees.of_terminated hp).2 hm
      · obtain ⟨-, -, ⟨-, rfl⟩ | ⟨hrej, -⟩⟩ := hagrees.of_failed hp
        · exact absurd (h.unread_of_truncated hp) hne
        · simp [hrejected] at hrej
  · -- They go on after the body only if nothing follows it, since its end is not passed over.
    by_cases hr : rest = []
    · have hb' : bs = body.encode := by simp [hb, hr]
      have hu' : d.source.unread = suffix := by simp [hu, hr]
      exact .inr ⟨hend hb', hb', hu'⟩
    · rw [hb, Scan.feed_append, Scan.feed_encode hw, Scan.feed_of_terminated rfl rfl hr] at hagrees
      have := hagrees.stands.isReading_of_rejected rfl
      simp [Scan.reject, PhaseMarker.IsReading] at this

/-- Reads of a stream that begins with a body do not fail. -/
private theorem Draws.perform_ok {d : Decoder Fragments} (h : d.Draws δ (body.encode ++ suffix) bs)
    (hw : body.WellFormed d.limits) {op : Operation} (ho : op.IsReading) : ∃ a, (d.perform δ op).result = .ok a := by
  cases hr : (d.perform δ op).result with
  | ok a => exact ⟨a, rfl⟩
  | error f =>
    have hl := (follows_perform δ h.tracks.agrees ho).limits_eq
    rcases perform_of_error δ h.tracks ho hr with ⟨m, e, -, hp⟩ | ⟨hlast, hk⟩
    · rcases (h.perform ho).within (hl ▸ hw) with ⟨hp', -⟩ | ⟨hp', -, -⟩
      · exact absurd hp' (settled_iff.2 (.inr ⟨m, e, hp⟩))
      · simp [hp] at hp'
    · have hreply := (d.trace_perform δ op).reads.forall_replies
        (P := fun r => ∀ f, r = .fault f → f.kind = .wouldBlock) Fragments.kind_of_read _ (List.mem_of_getLast? hlast)
      exact absurd (hreply f rfl) hk

theorem Draws.ok_of_mem_run {d : Decoder Fragments} (h : d.Draws δ (body.encode ++ suffix) bs)
    (hw : body.WellFormed d.limits) {ops : List Operation}
    (ho : ∀ op ∈ ops, op.IsReading) {r : Outcome (Decoder Fragments) Answer} (hr : r ∈ d.run δ ops) :
    ∃ a, r.result = .ok a := by
  obtain ⟨e, cs, op, he, hl, hop, rfl⟩ := h.of_mem_run ho hr
  exact he.perform_ok (hl ▸ hw) (ho op hop)

/-- What has come of a body that was read to its end. -/
theorem Draws.of_ended {τ : Type} [Transport τ] [Script τ] {d : Decoder τ} (h : d.Draws δ (body.encode ++ suffix) [])
    (hw : body.WellFormed d.limits) {ops : List Operation}
    (ho : ∀ op ∈ ops, op.IsReading) (hend : ∃ r ∈ d.run δ ops, r.result = .ok (.progress .ended)) :
    delivered (d.run δ ops) = body.payload ∧ (d.finish δ ops).decoded.toNat = body.payload.length ∧
      (d.finish δ ops).trailers = body.trailers.length.toUInt64 ∧ (d.finish δ ops).source.unread = suffix := by
  have hl := limits_finish δ h.tracks.agrees ho
  have hk := h.finish ho
  obtain ⟨r, hr, hres⟩ := hend
  have hterminated := phase_finish_of_ended ho hr hres
  rcases hk.within (hl ▸ hw) with ⟨hp, -⟩ | ⟨-, hc, hu⟩
  · exact absurd hp (settled_iff.2 (.inl hterminated))
  · have hagrees := hk.tracks.agrees
    have hpayload := (follows_run δ h.tracks.agrees ho).2
    rw [hl, hc, Scan.feed_encode hw] at hagrees
    rw [List.nil_append] at hc
    rw [Scan.feed_nil, hc, Scan.feed_encode hw] at hpayload
    -- The payload is within the limit of the body, so the counter does not wrap.
    have hlt : body.payload.length < UInt64.size := Nat.lt_of_le_of_lt hw.total_le d.limits.body.toNat_lt
    have hdecoded : (d.finish δ ops).decoded.toNat = body.payload.length := by
      rw [hagrees.decoded]
      exact UInt64.toNat_ofNat_of_lt' hlt
    exact ⟨hpayload.symm, hdecoded, hagrees.trailers, hu⟩

/-- A body is read to its end by more reads than there are bytes and gaps. -/
theorem Draws.exists_ended {d : Decoder Fragments} (h : d.Draws δ (body.encode ++ suffix) [])
    (hw : body.WellFormed d.limits) (hp : d.phase.marker.IsReading)
    {ops : List Operation} (ho : ∀ op ∈ ops, op.IsReading ∧ op ≠ .read 0)
    (hn : d.source.reach < ops.countP Operation.isRead) : ∃ r ∈ d.run δ ops, r.result = .ok (.progress .ended) := by
  have hread (op : Operation) (hm : op ∈ ops) : op.IsReading := (ho op hm).1
  have hl := limits_finish δ h.tracks.agrees hread
  -- As long as the body is not complete, there are bytes of it to come.
  have hexpects (hp' : (d.finish δ ops).phase.marker.IsReading) : (d.finish δ ops).source.Expects := by
    rcases (h.finish hread).within (hl ▸ hw) with ⟨-, hne⟩ | ⟨hterminated, -, -⟩
    · exact .inr hne
    · exact absurd hp' (settled_iff.2 (.inl hterminated))
  obtain ⟨r, hr, v, hv⟩ := exists_concludes_of_reach_lt δ h.tracks ho hp hexpects hn
  obtain ⟨a, ha⟩ := h.ok_of_mem_run hw hread hr
  cases hv with
  | complete hend => exact ⟨r, hr, hend⟩
  | truncated hres => simp [ha] at hres
  | malformed hres => simp [ha] at hres

end

/-- Whatever the cuts, the gaps, the storage and the destinations: reads of a well-formed body and what follows it do
not fail, come to the end of the body, and have then delivered its payload and left what follows it. -/
theorem round_trip (δ : Dialect) {limits : Limits} {body : Body} (hw : body.WellFormed limits) (suffix : Bytes)
    {b : Buffer} (hb : 0 < b.capacity) {t : Fragments} (he : b.data ++ t.unread = body.encode ++ suffix)
    {ops : List Operation} (ho : ∀ op ∈ ops, op.IsReading ∧ op ≠ .read 0) :
    let d := ofSource (.ofBuffer b t) limits
    (∀ r ∈ d.run δ ops, ∃ a, r.result = .ok a) ∧
      ((body.encode ++ suffix).length + t.gaps < ops.countP Operation.isRead →
        ∃ r ∈ d.run δ ops, r.result = .ok (.progress .ended)) ∧
      ((∃ r ∈ d.run δ ops, r.result = .ok (.progress .ended)) →
        delivered (d.run δ ops) = body.payload ∧
          (d.finish δ ops).decoded.toNat = body.payload.length ∧
          (d.finish δ ops).trailers = body.trailers.length.toUInt64 ∧
          (d.finish δ ops).source.buffer.data ++ (d.finish δ ops).source.transport.unread = suffix) := by
  intro d
  have h : d.Draws δ (body.encode ++ suffix) [] := he ▸ draws_ofBuffer δ hb trivial limits
  have hread (op : Operation) (hm : op ∈ ops) : op.IsReading := (ho op hm).1
  refine ⟨fun r hr => h.ok_of_mem_run hw hread hr, fun hn => ?_, h.of_ended hw hread⟩
  have hreach : d.source.reach = (body.encode ++ suffix).length + t.gaps := by rw [← he]; rfl
  exact h.exists_ended hw (.inl rfl) ho (hreach ▸ hn)

/-- A chunk with an extension whose payload is a carriage return, and a trailer line, cut within a line end. -/
theorem round_trip_of_one_chunk :
    let body : Body := ⟨[⟨[49, 59, 120], [13]⟩], [48, 48], [[120]]⟩
    let t : Fragments := ⟨[.fragment 59 [120, 13], .gap, .fragment 10 [13, 13, 10, 48, 48, 13, 10, 120, 13, 10, 13],
      .fragment 10 [88]], false⟩
    let d := ofSource (.ofBuffer (.withReceived [49, 0] 1) t) {}
    let ops := .refill :: List.replicate 20 (.read 1)
    body.WellFormed {} ∧ delivered (d.run .strict ops) = body.payload ∧
      (d.finish .strict ops).source.buffer.data ++ (d.finish .strict ops).source.transport.unread = [88] := by
  intro body t d ops
  have hw : body.WellFormed {} :=
    { chunks := by
        intro c hc
        obtain rfl : c = ⟨[49, 59, 120], [13]⟩ := by simpa [body] using hc
        have hs : SizeLine.size [49, 59, 120] = .ok 1 := by decide +kernel
        exact ⟨SizeLine.size_eq_ok_iff.1 hs, by decide, by decide, by decide⟩
      last := SizeLine.size_eq_ok_iff.1 (show SizeLine.size [48, 48] = .ok 0 by decide +kernel)
      last_framed := by decide
      trailers := by decide
      total_le := by decide }
  obtain ⟨-, hend, hleft⟩ := round_trip .strict hw [88]
    (show 0 < (Buffer.withReceived [49, 0] 1).capacity by decide)
    (show (Buffer.withReceived [49, 0] 1).data ++ t.unread = _ by decide)
    (show ∀ op ∈ ops, op.IsReading ∧ op ≠ .read 0 by decide)
  obtain ⟨hpayload, -, -, hsuffix⟩ := hleft (hend (by decide))
  exact ⟨hw, hpayload, hsuffix⟩

end Decoder

end ChunkedTransfer
