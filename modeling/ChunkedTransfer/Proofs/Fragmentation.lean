import ChunkedTransfer.Proofs.Stream

/-!
# Fragmentation

How the bytes of a body are cut into pieces does not matter, nor what delays there are between them, how large the
storage is, how much is read at once or when the source is refilled: two decoders over the same bytes come to the
same verdict and have delivered the same payload (`fragmentation_invariance`). Both have taken a front of these
bytes. The longer front does not take the scan anywhere else than the shorter one does, since a scan that has refused
a byte stays where it is, and a decoder that has found its body complete or cut short takes no further byte.
-/

namespace ChunkedTransfer.Decoder

variable {τ τ' : Type} [Transport τ] [Script τ]

/-- Where a settled decoder is, a scan of more of its bytes is too, if any decoder agrees with that scan. -/
private theorem Draws.feed_eq {δ : Dialect} {stream bs cs rest : Bytes} {d : Decoder τ} (h : d.Draws δ stream bs)
    (hs : d.Settled) (hc : d.source.unread = cs ++ rest) {d' : Decoder τ'}
    (h' : d'.Agrees (Scan.feed δ d.limits {} (bs ++ cs))) :
    Scan.feed δ d.limits {} (bs ++ cs) = Scan.feed δ d.limits {} bs ∧
      ((Scan.feed δ d.limits {} bs).verdict = .complete → cs = []) := by
  rw [Scan.feed_append] at h' ⊢
  rw [Scan.verdict_eq_complete_iff]
  rcases settled_iff.1 hs with hp | ⟨m, e, hp⟩
  · -- A byte after the end would be refused there, and no decoder agrees with that.
    obtain ⟨hr, hm⟩ := h.tracks.agrees.of_terminated hp
    by_cases hcs : cs = []
    · simp [hcs]
    · rw [Scan.feed_of_terminated hr hm hcs] at h'
      have := h'.stands.isReading_of_rejected rfl
      simp [Scan.reject, hm, PhaseMarker.IsReading] at this
  · obtain ⟨hm', hm, hcases⟩ := h.tracks.agrees.of_failed hp
    constructor
    · -- Either there are no more bytes, or one was refused already.
      rcases hcases with ⟨-, rfl⟩ | ⟨hr, -⟩
      · rw [h.unread_of_truncated hp] at hc
        rw [(List.append_eq_nil_iff.1 hc.symm).1, Scan.feed_nil]
      · exact Scan.feed_of_rejected hr cs
    · intro hv
      rw [hm'] at hv
      simp [hv.2, PhaseMarker.IsReading] at hm

variable [Transport τ'] [Script τ']

/-- Two settled decoders that have drawn from the same stream agree with one scan. -/
theorem Draws.feed_eq_feed {δ : Dialect} {stream bs bs' : Bytes} {d : Decoder τ} {d' : Decoder τ'}
    (h : d.Draws δ stream bs) (h' : d'.Draws δ stream bs') (hs : d.Settled) (hs' : d'.Settled)
    (hl : d'.limits = d.limits) :
    Scan.feed δ d.limits {} bs = Scan.feed δ d.limits {} bs' ∧
      ((Scan.feed δ d.limits {} bs).verdict = .complete → bs = bs') := by
  have ha := h'.tracks.agrees
  rw [hl] at ha
  rcases List.append_eq_append_iff.1 (h.stream_eq.trans h'.stream_eq.symm) with ⟨cs, rfl, hu⟩ | ⟨cs, rfl, hu⟩
  · obtain ⟨hf, hc⟩ := h.feed_eq hs hu ha
    exact ⟨hf.symm, fun hv => by simp [hc hv]⟩
  · obtain ⟨hf, hc⟩ := h'.feed_eq hs' hu (by rw [hl]; exact h.tracks.agrees)
    rw [hl] at hf hc
    exact ⟨hf, fun hv => by simp [hc (hf ▸ hv)]⟩

/-- Whatever the schedules by which two decoders read the same bytes from transports that end after them: the reads
come to a verdict, and both have come to the same one, with the same payload and counts. After a complete body both
have the same bytes left. -/
theorem fragmentation_invariance (δ : Dialect) (limits : Limits) {b b' : Buffer} {t : τ} {t' : τ'}
    (hb : 0 < b.capacity) (hb' : 0 < b'.capacity) (ht : Script.Faithful t) (ht' : Script.Faithful t')
    (hc : Script.closed t = true) (hc' : Script.closed t' = true)
    (he : b.data ++ Script.unread t = b'.data ++ Script.unread t') {ops ops' : List Operation}
    (ho : ∀ op ∈ ops, op.IsReading ∧ op ≠ .read 0) (ho' : ∀ op ∈ ops', op.IsReading ∧ op ≠ .read 0) :
    let d := ofSource (.ofBuffer b t) limits
    let d' := ofSource (.ofBuffer b' t') limits
    ((b.data ++ Script.unread t).length + Script.delays t < ops.countP Operation.isRead →
        ∃ r ∈ d.run δ ops, ∃ v, Concludes r v) ∧
      ((b'.data ++ Script.unread t').length + Script.delays t' < ops'.countP Operation.isRead →
        ∃ r ∈ d'.run δ ops', ∃ v, Concludes r v) ∧
      ∀ r ∈ d.run δ ops, ∀ r' ∈ d'.run δ ops', ∀ v v', Concludes r v → Concludes r' v' →
        v = v' ∧ delivered (d.run δ ops) = delivered (d'.run δ ops') ∧
          (d.finish δ ops).decoded = (d'.finish δ ops').decoded ∧
          (d.finish δ ops).trailers = (d'.finish δ ops').trailers ∧
          (d.finish δ ops).remaining = (d'.finish δ ops').remaining ∧
          (v = .complete → (d.finish δ ops).source.unread = (d'.finish δ ops').source.unread) := by
  intro d d'
  have h : d.Draws δ (b.data ++ Script.unread t) [] := draws_ofBuffer δ hb ht limits
  have h' : d'.Draws δ (b.data ++ Script.unread t) [] := he ▸ draws_ofBuffer δ hb' ht' limits
  have hread (op : Operation) (hm : op ∈ ops) : op.IsReading := (ho op hm).1
  have hread' (op : Operation) (hm : op ∈ ops') : op.IsReading := (ho' op hm).1
  refine ⟨?_, ?_, ?_⟩
  · intro hn
    have hclosed := (Script.closed_of_reads (d.trace_run δ ops).reads).trans hc
    exact exists_concludes_of_reach_lt δ h.tracks ho (.inl rfl) (fun _ => .inl hclosed) hn
  · intro hn
    have hclosed := (Script.closed_of_reads (d'.trace_run δ ops').reads).trans hc'
    exact exists_concludes_of_reach_lt δ h'.tracks ho' (.inl rfl) (fun _ => .inl hclosed) hn
  · intro r hr r' hr' v v' hv hv'
    obtain ⟨hs, rfl⟩ := concludes_of_mem_run δ h.tracks ho hr hv
    obtain ⟨hs', rfl⟩ := concludes_of_mem_run δ h'.tracks ho' hr' hv'
    have hk := h.finish hread
    have hk' := h'.finish hread'
    have hl : (d.finish δ ops).limits = limits := limits_finish δ h.tracks.agrees hread
    have hl' : (d'.finish δ ops').limits = limits := limits_finish δ h'.tracks.agrees hread'
    obtain ⟨hf, hend⟩ := hk.feed_eq_feed hk' hs hs' (hl'.trans hl.symm)
    have hp := (follows_run δ h.tracks.agrees hread).2
    have hp' := (follows_run δ h'.tracks.agrees hread').2
    have ha := hk.tracks.agrees
    have ha' := hk'.tracks.agrees
    rw [hl'] at ha'
    rw [hl] at ha hf hend
    rw [← hf] at ha'
    rw [List.nil_append] at hf hend ha ha'
    -- Both decoders agree with one scan, and this determines all that is compared.
    have hpayload : delivered (d.run δ ops) = delivered (d'.run δ ops') := by
      have := hp.symm.trans ((congrArg Scan.payload hf).trans hp')
      simpa using this
    have hremaining : (d.finish δ ops).remaining = (d'.finish δ ops').remaining :=
      UInt64.toNat_inj.1 (ha.remaining.trans ha'.remaining.symm)
    refine ⟨congrArg Scan.verdict hf, hpayload, ha.decoded.trans ha'.decoded.symm,
      ha.trailers.trans ha'.trailers.symm, hremaining, ?_⟩
    intro hv
    have hstream := hk.stream_eq.trans hk'.stream_eq.symm
    rw [List.nil_append, hend hv] at hstream
    exact List.append_cancel_left hstream

/-- One chunk, read byte by byte past a gap and a timeout, and read from a buffer that holds the front of it. -/
theorem fragmentation_invariance_of_one_chunk :
    let t : Faulty Fragments :=
      ⟨⟨[.fragment 49 [13], .gap, .fragment 10 [97, 13, 10, 48, 13, 10, 13, 10, 88]], true⟩,
        [(3, .fault (.plain .timedOut))]⟩
    let t' : Fragments := ⟨[.fragment 13 [10, 48, 13, 10, 13, 10, 88]], true⟩
    let d := ofSource (.ofBuffer (.ofStorage [0]) t) {}
    let d' := ofSource (.ofBuffer (.withReceived [49, 13, 10, 97] 4) t') {}
    let ops := .refill :: List.replicate 15 (.read 1)
    let ops' := List.replicate 13 (.read 8)
    delivered (d.run .strict ops) = delivered (d'.run .strict ops') ∧ delivered (d.run .strict ops) = [97] := by
  intro t t' d d' ops ops'
  have h := fragmentation_invariance .strict {} (show 0 < (Buffer.ofStorage [0]).capacity by decide)
    (show 0 < (Buffer.withReceived [49, 13, 10, 97] 4).capacity by decide)
    (show Script.Faithful t from ⟨trivial, by decide⟩) (show Script.Faithful t' from trivial) rfl rfl (by decide)
    (show ∀ op ∈ ops, op.IsReading ∧ op ≠ .read 0 by decide)
    (show ∀ op ∈ ops', op.IsReading ∧ op ≠ .read 0 by decide)
  obtain ⟨r, hr, v, hv⟩ := h.1 (by decide)
  obtain ⟨r', hr', v', hv'⟩ := h.2.1 (by decide)
  exact ⟨(h.2.2 r hr r' hr' v v' hv hv').2.1, by decide +kernel⟩

end ChunkedTransfer.Decoder
