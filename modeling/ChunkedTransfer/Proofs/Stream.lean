import ChunkedTransfer.Proofs.Script
import ChunkedTransfer.Proofs.Verdict

/-!
# Streams

What a decoder does with a stream of bytes that is known in advance, part of it in the buffer and the rest in the
script of the transport. It has drawn a front of the stream, and what it can still draw is the rest
(`Decoder.Draws`). A read that gives no verdict uses up a byte or a delay, so that there is a verdict after finitely
many reads (`exists_concludes_of_reach_lt`).
-/

namespace ChunkedTransfer

def Operation.isRead : Operation → Bool
  | .read _ => true
  | _ => false

namespace Source

variable {τ : Type} [Transport τ] [Script τ]

/-- What reads can use up: the bytes and the delays that are left. -/
def reach (s : Source τ) : Nat := s.unread.length + Script.delays s.transport

/-- There is something to come: bytes, or the end. -/
def Expects (s : Source τ) : Prop := Script.closed s.transport = true ∨ s.unread ≠ []

private theorem Expects.live {s : Source τ} (h : s.Expects) (hd : s.buffer.data = []) : Script.Live s.transport := by
  rcases h with h | h
  · exact .inl h
  · exact .inr (by simpa [unread, hd] using h)

private theorem Trace.expects_of {s s' : Source τ} {es : List Event} (h : Trace s es s') (hs : s.Consistent)
    (he : s'.Expects) : s.Expects := by
  rcases he with he | he
  · exact .inl (by rwa [Script.closed_of_reads h.reads] at he)
  · refine .inr ?_
    rw [h.unread_eq hs]
    simp [he]

theorem Trace.reach_le {s s' : Source τ} {es : List Event} (h : Trace s es s') (hs : s.Consistent) :
    (consumed es).length + s'.reach ≤ s.reach := by
  have := Script.delays_of_reads h.reads
  rw [reach, reach, h.unread_eq hs, List.length_append]
  omega

private theorem Trace.faults_add_reach_le {s s' : Source τ} {es : List Event} (h : Trace s es s') (hs : s.Consistent)
    (hl : Script.Live s'.transport) : faults es + s'.reach ≤ s.reach := by
  have := h.faults_le hl
  rw [reach, reach, h.unread_eq hs, List.length_append]
  omega

end Source

namespace Decoder

variable {τ : Type} [Transport τ] [Script τ]

/-- A read without a verdict has used up a byte or a delay, unless its source has nothing more to wait for. -/
private theorem reach_read_lt (δ : Dialect) {d : Decoder τ} {s : Scan} (h : d.Tracks s) {room : Nat} (hr : 0 < room)
    (hp : (d.read δ room).state.phase.marker.IsReading) (he : (d.read δ room).state.source.Expects) :
    (d.read δ room).state.source.reach < d.source.reach := by
  have ht := d.trace_read δ room
  -- Whatever the read comes to, its trace has taken a byte, or has met a fault with no data left.
  have hfault (hd : (d.read δ room).state.source.buffer.data = []) (hf : 0 < faults (d.read δ room).events) :
      (d.read δ room).state.source.reach < d.source.reach := by
    have := ht.faults_add_reach_le h.consistent (he.live hd)
    omega
  cases explained_read δ h room with
  | goOn hres => exact absurd hres (Outcome.result_map_some_ne _)
  | @read bs hres hb =>
    obtain ⟨framed, hf⟩ := consumed_advance δ d room
    have hres' : (d.advance δ room).result = .ok (.read bs) := Outcome.result_of_map_some hres
    have hc : 0 < (consumed (d.read δ room).events).length := by
      simp only [read, consumed_append, Source.consumed_report, List.append_nil, hf, Outcome.bytesOf_of_ok hres',
        List.length_append, Progress.payload]
      have := List.length_pos_iff.2 (hb hr)
      omega
    have := ht.reach_le h.consistent
    omega
  | pending hres _ hs hx =>
    cases hs with
    | blocked hs _ hl => exact hfault hs.data_eq_nil (faults_pos hl)
    | exhausted _ hx' => exact absurd (hx.symm.trans hx') (by simp)
  | ended _ hp' => exact absurd hp (settled_iff.2 (.inl hp'))
  | fault _ _ hs =>
    cases hs with
    | faulted hs _ hl => exact hfault hs.data_eq_nil (faults_pos hl)
  | failed _ hp' => exact absurd hp (settled_iff.2 (.inr ⟨_, _, hp'⟩))

/-- A decoder that has given no verdict in a run has used up at least one byte or delay for each read. -/
private theorem countP_isRead_add_reach_le (δ : Dialect) {d : Decoder τ} {s : Scan} (h : d.Tracks s)
    {ops : List Operation} (ho : ∀ op ∈ ops, op.IsReading ∧ op ≠ .read 0) (hp : (d.finish δ ops).phase.marker.IsReading)
    (he : (d.finish δ ops).source.Expects) :
    ops.countP Operation.isRead + (d.finish δ ops).source.reach ≤ d.source.reach := by
  induction ops generalizing d s with
  | nil => simp
  | cons op ops ih =>
    obtain ⟨hop, hops⟩ := List.forall_mem_cons.1 ho
    have htrack := tracks_perform δ h hop.1
    have hle := ih htrack hops hp he
    have he' := ((d.perform δ op).state.trace_run δ ops).expects_of htrack.consistent he
    have hp' : (d.perform δ op).state.phase.marker.IsReading := by
      refine Classical.byContradiction fun hn => ?_
      rw [finish_cons, (finish_of_settled (δ := δ) hn fun op hm => (hops op hm).1).1] at hp
      exact hn hp
    rw [finish_cons]
    rcases Operation.cases_of_isReading hop with ⟨room, hroom, rfl⟩ | rfl
    · have := reach_read_lt δ h hroom hp' he'
      simp only [List.countP_cons, Operation.isRead, if_true]
      simp only [perform, Outcome.state_map] at hle ⊢
      omega
    · have := (d.trace_perform δ .refill).reach_le h.consistent
      simp only [List.countP_cons, Operation.isRead, Bool.false_eq_true, if_false]
      omega

/-- There is a verdict after more reads than there are bytes and delays, if there is something to come as long as
there is none. -/
theorem exists_concludes_of_reach_lt (δ : Dialect) {d : Decoder τ} {s : Scan} (h : d.Tracks s) {ops : List Operation}
    (ho : ∀ op ∈ ops, op.IsReading ∧ op ≠ .read 0) (hp : d.phase.marker.IsReading)
    (he : (d.finish δ ops).phase.marker.IsReading → (d.finish δ ops).source.Expects)
    (hn : d.source.reach < ops.countP Operation.isRead) : ∃ r ∈ d.run δ ops, ∃ v, Concludes r v := by
  refine exists_concludes δ h ho hp fun hm => ?_
  have := countP_isRead_add_reach_le δ h ho hm (he hm)
  omega

/-! ### Drawing from a stream -/

/-- The decoder has drawn the given bytes from the front of a stream. -/
structure Draws (δ : Dialect) (stream : Bytes) (d : Decoder τ) (bs : Bytes) : Prop where
  tracks : d.Tracks (Scan.feed δ d.limits {} bs)
  honest : d.source.Honest
  stream_eq : bs ++ d.source.unread = stream

theorem draws_ofBuffer (δ : Dialect) {b : Buffer} (hb : 0 < b.capacity) {t : τ} (ht : Script.Faithful t)
    (limits : Limits) : (ofSource (.ofBuffer b t) limits).Draws δ (b.data ++ Script.unread t) [] where
  tracks := tracks_ofBuffer hb t limits
  honest := ⟨ht, by simp [ofSource, Source.ofBuffer]⟩
  stream_eq := rfl

variable {δ : Dialect} {stream bs : Bytes} {d : Decoder τ}

theorem Draws.perform (h : d.Draws δ stream bs) {op : Operation} (ho : op.IsReading) :
    (d.perform δ op).state.Draws δ stream (bs ++ consumed (d.perform δ op).events) where
  tracks := by
    rw [(follows_perform δ h.tracks.agrees ho).limits_eq, Scan.feed_append]
    exact tracks_perform δ h.tracks ho
  honest := (d.trace_perform δ op).honest h.honest
  stream_eq := by rw [List.append_assoc, ← (d.trace_perform δ op).unread_eq h.tracks.consistent, h.stream_eq]

theorem Draws.finish (h : d.Draws δ stream bs) {ops : List Operation} (ho : ∀ op ∈ ops, op.IsReading) :
    (d.finish δ ops).Draws δ stream (bs ++ consumed (eventsOf (d.run δ ops))) where
  tracks := by
    rw [limits_finish δ h.tracks.agrees ho, Scan.feed_append]
    exact tracks_finish δ h.tracks ho
  honest := (d.trace_run δ ops).honest h.honest
  stream_eq := by rw [List.append_assoc, ← (d.trace_run δ ops).unread_eq h.tracks.consistent, h.stream_eq]

/-- Each outcome of a run is that of an operation on a decoder that has drawn from the same stream. -/
theorem Draws.of_mem_run (h : d.Draws δ stream bs) {ops : List Operation} (ho : ∀ op ∈ ops, op.IsReading)
    {r : Outcome (Decoder τ) Answer} (hr : r ∈ d.run δ ops) :
    ∃ (e : Decoder τ) (cs : Bytes) (op : Operation),
      e.Draws δ stream cs ∧ e.limits = d.limits ∧ op ∈ ops ∧ r = e.perform δ op := by
  induction ops generalizing d bs with
  | nil => simp at hr
  | cons op ops ih =>
    obtain ⟨hop, hops⟩ := List.forall_mem_cons.1 ho
    rw [run_cons, List.mem_cons] at hr
    rcases hr with rfl | hr
    · exact ⟨d, bs, op, h, rfl, List.mem_cons_self .., rfl⟩
    · obtain ⟨e, cs, op', he, hl, hm, rfl⟩ := ih (h.perform hop) hops hr
      have hl' := (follows_perform δ h.tracks.agrees hop).limits_eq
      exact ⟨e, cs, op', he, hl.trans hl', List.mem_cons_of_mem _ hm, rfl⟩

/-- A body is found to be cut short only where the stream ends. -/
theorem Draws.unread_of_truncated (h : d.Draws δ stream bs) {m p : PhaseMarker}
    (hp : d.phase = .failed m (.truncated p)) : d.source.unread = [] := by
  obtain ⟨hx, hd⟩ := h.tracks.drained _ _ hp
  rw [Source.unread, hd, h.honest.2 hx, List.append_nil]

end Decoder

end ChunkedTransfer
