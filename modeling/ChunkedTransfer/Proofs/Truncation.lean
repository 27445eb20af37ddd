import ChunkedTransfer.Proofs.Soundness
import ChunkedTransfer.Proofs.Stream

/-!
# Truncation

A body that is cut short is never taken for a complete one, nor for a malformed one (`no_silent_truncation`). Let a
stream be decoded to its last byte. A decoder that is given only a front of it is in a place where the scan of the
whole stream has been too, and that scan goes on: it has not refused a byte, and it has not come to the end of the
body. So the only verdict that is left is that the body was cut short. It is given where the front ends, and all
payload in the front has been delivered before.
-/

namespace ChunkedTransfer.Decoder

variable {τ τ' : Type} [Transport τ] [Script τ] [Transport τ'] [Script τ']

/-- Where a stream was decoded to its last byte, a scan of it ends with the body, and its payload is what was
delivered. -/
private theorem feed_of_decoded {δ : Dialect} {limits : Limits} {b : Buffer} {t : τ} {ops : List Operation}
    (ho : ∀ op ∈ ops, op.IsReading)
    (hend : ∃ r ∈ (ofSource (.ofBuffer b t) limits).run δ ops, r.result = .ok (.progress .ended))
    (hleft : ((ofSource (.ofBuffer b t) limits).finish δ ops).source.unread = []) :
    (Scan.feed δ limits {} (b.data ++ Script.unread t)).rejected = false ∧
      (Scan.feed δ limits {} (b.data ++ Script.unread t)).payload =
        delivered ((ofSource (.ofBuffer b t) limits).run δ ops) := by
  let d : Decoder τ := ofSource (.ofBuffer b t) limits
  have hs : b.data ++ Script.unread t = consumed (eventsOf (d.run δ ops)) := by
    have hu := (d.trace_run δ ops).unread_eq (Source.consistent_ofBuffer b t)
    rwa [hleft, List.append_nil] at hu
  obtain ⟨ha, hp⟩ := follows_run δ (agrees_ofSource (.ofBuffer b t) limits) ho
  obtain ⟨r, hr, hres⟩ := hend
  obtain ⟨hrejected, -⟩ := ha.of_terminated (phase_finish_of_ended ho hr hres)
  rw [hs]
  exact ⟨hrejected, hp⟩

variable {δ : Dialect} {front rest bs : Bytes} {d : Decoder τ}

/-- A decoder that has drawn from the front of a stream is still reading, or has found the front to end, if a scan of
the whole stream refuses no byte. -/
private theorem Draws.phase_of_front (h : d.Draws δ front bs) (hrest : rest ≠ [])
    (hs : (Scan.feed δ d.limits {} (front ++ rest)).rejected = false) :
    d.phase.marker.IsReading ∨ ∃ m, d.phase = .failed m (.truncated m) := by
  rw [← h.stream_eq, List.append_assoc] at hs
  obtain ⟨hrejected, hm⟩ := Scan.front_of_not_rejected hs (by simp [hrest])
  rcases d.phase_cases with hp | hp | ⟨m, e, hp⟩
  · exact .inl hp
  · exact absurd (h.tracks.agrees.of_terminated hp).2 hm
  · obtain ⟨-, -, ⟨-, rfl⟩ | ⟨hrej, -⟩⟩ := h.tracks.agrees.of_failed hp
    · exact .inr ⟨m, hp⟩
    · simp [hrejected] at hrej

private theorem Draws.phase_of_mem_run (h : d.Draws δ front bs) (hrest : rest ≠ [])
    (hs : (Scan.feed δ d.limits {} (front ++ rest)).rejected = false) {ops : List Operation}
    (ho : ∀ op ∈ ops, op.IsReading) {r : Outcome (Decoder τ) Answer} (hr : r ∈ d.run δ ops) :
    r.state.phase.marker.IsReading ∨ ∃ m, r.state.phase = .failed m (.truncated m) := by
  obtain ⟨e, cs, op, he, hl, hop, rfl⟩ := h.of_mem_run ho hr
  have hlimits := (follows_perform δ he.tracks.agrees (ho op hop)).limits_eq.trans hl
  exact (he.perform (ho op hop)).phase_of_front hrest (by rwa [hlimits])

/-- What a run on a decoder that is given the front of a stream can fail with. -/
private theorem Draws.error_of_front (h : d.Draws δ front bs) (hrest : rest ≠ [])
    (hs : (Scan.feed δ d.limits {} (front ++ rest)).rejected = false) {ops : List Operation}
    (ho : ∀ op ∈ ops, op.IsReading ∧ op ≠ .read 0) {r : Outcome (Decoder τ) Answer} (hr : r ∈ d.run δ ops) {f : Fault}
    (hf : r.result = .error f) :
    (∃ m, f = .framing (.truncated m) ∧ Concludes r (.truncated m)) ∨
      lastReply r.events = some (.fault f) ∧ f.kind ≠ .wouldBlock := by
  have hphase := h.phase_of_mem_run hrest hs (fun op hm => (ho op hm).1) hr
  obtain ⟨e, cs, op, he, -, hop, rfl⟩ := h.of_mem_run (fun op hm => (ho op hm).1) hr
  rcases perform_of_error δ he.tracks (ho op hop).1 hf with ⟨m, e', rfl, hp⟩ | hlast
  · rcases hphase with hp' | ⟨m', hp'⟩
    · exact absurd hp' (settled_iff.2 (.inr ⟨m, e', hp⟩))
    · obtain ⟨rfl, rfl⟩ : m = m' ∧ e' = .truncated m' := by simpa [hp] using hp'
      exact .inl ⟨m, rfl, .truncated hf hp⟩
  · exact .inr hlast

/-- A decoder that has found the body to be cut short is where the scan of the whole front is, and has delivered the
payload in it. -/
private theorem Draws.delivered_of_truncated (h : d.Draws δ front []) (hrest : rest ≠ [])
    (hs : (Scan.feed δ d.limits {} (front ++ rest)).rejected = false) {ops : List Operation}
    (ho : ∀ op ∈ ops, op.IsReading ∧ op ≠ .read 0) {r : Outcome (Decoder τ) Answer} (hr : r ∈ d.run δ ops)
    {m : PhaseMarker} (hv : Concludes r (.truncated m)) :
    m = (Scan.feed δ d.limits {} front).phase ∧
      delivered (d.run δ ops) = (Scan.feed δ d.limits {} front).payload := by
  have hread (op : Operation) (hm : op ∈ ops) : op.IsReading := (ho op hm).1
  have hk := h.finish hread
  have hl : (d.finish δ ops).limits = d.limits := limits_finish δ h.tracks.agrees hread
  obtain ⟨hsettled, hverdict⟩ := concludes_of_mem_run δ h.tracks ho hr hv
  have hp := (follows_run δ h.tracks.agrees hread).2
  rcases hk.phase_of_front hrest (by rwa [hl]) with hreading | ⟨m', hm'⟩
  · exact absurd hreading hsettled
  · -- The decoder has failed for want of bytes, so it has taken all of the front.
    have htaken : consumed (eventsOf (d.run δ ops)) = front := by
      have hstream := hk.stream_eq
      rwa [hk.unread_of_truncated hm', List.append_nil, List.nil_append] at hstream
    rw [Scan.feed_nil, htaken] at hp hverdict
    refine ⟨?_, by simpa using hp.symm⟩
    unfold Scan.verdict at hverdict
    split at hverdict
    · simp at hverdict
    · split at hverdict
      · simp at hverdict
      · simpa using hverdict

/-- What was taken is a front of the stream, and payload is not taken back. -/
private theorem Draws.delivered_prefix (h : d.Draws δ front []) {ops : List Operation}
    (ho : ∀ op ∈ ops, op.IsReading ∧ op ≠ .read 0) (rest : Bytes) :
    delivered (d.run δ ops) <+: (Scan.feed δ d.limits {} (front ++ rest)).payload := by
  have hread (op : Operation) (hm : op ∈ ops) : op.IsReading := (ho op hm).1
  have hp := (follows_run δ h.tracks.agrees hread).2
  rw [Scan.feed_nil, List.nil_append] at hp
  rw [← (h.finish hread).stream_eq, List.nil_append, List.append_assoc, Scan.feed_append, ← hp]
  exact Scan.payload_prefix_feed _ _

/-- No front of a body is complete, and no reader is told so. Let a stream be decoded to its last byte, and let a
decoder with the same limits be given a proper front of it. It never tells the end, and fails with no other framing
error than that the transport has closed, in the phase to which the front leads. It does fail so if the transport
closes, and has then delivered all payload in the front. What it has delivered is at any time a front of the whole
payload. -/
theorem no_silent_truncation (δ : Dialect) (limits : Limits) {b : Buffer} {t : τ} {ops : List Operation}
    (ho : ∀ op ∈ ops, op.IsReading)
    (hend : ∃ r ∈ (ofSource (.ofBuffer b t) limits).run δ ops, r.result = .ok (.progress .ended))
    (hleft : ((ofSource (.ofBuffer b t) limits).finish δ ops).source.unread = [])
    {b' : Buffer} {t' : τ'} (hb' : 0 < b'.capacity) (ht' : Script.Faithful t') {rest : Bytes} (hrest : rest ≠ [])
    (he : b.data ++ Script.unread t = b'.data ++ Script.unread t' ++ rest) {ops' : List Operation}
    (ho' : ∀ op ∈ ops', op.IsReading ∧ op ≠ .read 0) :
    let d := ofSource (.ofBuffer b t) limits
    let d' := ofSource (.ofBuffer b' t') limits
    let front := b'.data ++ Script.unread t'
    let s := Scan.feed δ limits {} front
    s.Parses δ limits front ∧
      (∀ r ∈ d'.run δ ops', r.result ≠ .ok (.progress .ended)) ∧
      (∀ r ∈ d'.run δ ops', ∀ f, r.result = .error f →
        f = .framing (.truncated s.phase) ∧ f.kind = .unexpectedEnd ∧
            r.state.phase = .failed s.phase (.truncated s.phase) ∧ delivered (d'.run δ ops') = s.payload ∨
          lastReply r.events = some (.fault f) ∧ f.kind ≠ .wouldBlock) ∧
      (Script.closed t' = true → front.length + Script.delays t' < ops'.countP Operation.isRead →
        ∃ r ∈ d'.run δ ops', Concludes r (.truncated s.phase)) ∧
      delivered (d'.run δ ops') <+: delivered (d.run δ ops) := by
  intro d d' front s
  have hread (op : Operation) (hm : op ∈ ops') : op.IsReading := (ho' op hm).1
  obtain ⟨hwhole, hpayload⟩ := feed_of_decoded ho hend hleft
  rw [he] at hwhole hpayload
  have h : d'.Draws δ front [] := draws_ofBuffer δ hb' ht' limits
  have hk := h.finish hread
  have hl : (d'.finish δ ops').limits = limits := limits_finish δ h.tracks.agrees hread
  have hnever : ∀ r ∈ d'.run δ ops', r.result ≠ .ok (.progress .ended) := by
    intro r hr hres
    have hp := phase_finish_of_ended hread hr hres
    rcases hk.phase_of_front hrest (by rwa [hl]) with hreading | ⟨m, hm⟩
    · exact absurd hreading (settled_iff.2 (.inl hp))
    · simp [hp] at hm
  refine ⟨?_, hnever, ?_, ?_, ?_⟩
  · simpa using Scan.parses_nil.feed (Scan.front_of_not_rejected hwhole hrest).1
  · intro r hr f hf
    rcases h.error_of_front hrest hwhole ho' hr hf with ⟨m, rfl, hv⟩ | hlast
    · obtain ⟨rfl, hdelivered⟩ := h.delivered_of_truncated hrest hwhole ho' hr hv
      cases hv with
      | truncated _ hp => exact .inl ⟨rfl, rfl, hp, hdelivered⟩
    · exact .inr hlast
  · intro hclosed hn
    have hclosed' := (Script.closed_of_reads (d'.trace_run δ ops').reads).trans hclosed
    obtain ⟨r, hr, v, hv⟩ := exists_concludes_of_reach_lt δ h.tracks ho' (.inl rfl) (fun _ => .inl hclosed') hn
    cases hv with
    | complete hres => exact absurd hres (hnever r hr)
    | truncated hres hp =>
      have hv := Concludes.truncated hres hp
      exact ⟨r, hr, (h.delivered_of_truncated hrest hwhole ho' hr hv).1 ▸ hv⟩
    | @malformed m e _ hne hp =>
      rcases h.phase_of_mem_run hrest hwhole hread hr with hreading | ⟨m', hp'⟩
      · exact absurd hreading (settled_iff.2 (.inr ⟨m, e, hp⟩))
      · obtain ⟨-, rfl⟩ : m = m' ∧ e = .truncated m' := by simpa [hp] using hp'
        exact absurd rfl (hne m')
  · rw [← hpayload]
    exact h.delivered_prefix ho' rest

/-- One chunk, cut within the line end after its payload. The end of the transport is seen after a gap and a
timeout. -/
theorem no_silent_truncation_within_lineEnd :
    let t : Fragments := ⟨[.fragment 49 [13, 10, 97, 13, 10, 48, 13, 10, 13, 10]], false⟩
    let t' : Faulty Fragments :=
      ⟨⟨[.fragment 13 [10, 97], .gap, .fragment 13 []], true⟩, [(2, .fault (.plain .timedOut))]⟩
    let d := ofSource (.ofBuffer (.ofStorage [0, 0, 0]) t) {}
    let d' := ofSource (.ofBuffer (.withReceived [49, 0] 1) t') {}
    let ops := List.replicate 2 (.read 4)
    let ops' := .refill :: List.replicate 8 (.read 4)
    (∃ r ∈ d'.run .strict ops', Concludes r (.truncated .data)) ∧ delivered (d.run .strict ops) = [97] ∧
      delivered (d'.run .strict ops') <+: [97] := by
  intro t t' d d' ops ops'
  have hd : delivered (d.run .strict ops) = [97] := by decide +kernel
  obtain ⟨-, -, -, htruncated, hprefix⟩ := no_silent_truncation .strict {}
    (show ∀ op ∈ ops, op.IsReading by decide)
    (show ∃ r ∈ d.run .strict ops, r.result = .ok (.progress .ended) from
      ⟨(d.run .strict ops).get ⟨1, by decide⟩, List.get_mem _ _, by decide +kernel⟩)
    (by decide +kernel) (show 0 < (Buffer.withReceived [49, 0] 1).capacity by decide)
    (show Script.Faithful t' from ⟨trivial, by decide⟩) (show ([10, 48, 13, 10, 13, 10] : Bytes) ≠ [] by decide)
    (by decide) (show ∀ op ∈ ops', op.IsReading ∧ op ≠ .read 0 by decide)
  rw [hd] at hprefix
  obtain ⟨r, hr, hv⟩ := htruncated rfl (by decide)
  exact ⟨⟨r, hr, hv⟩, hd, hprefix⟩

end ChunkedTransfer.Decoder
