import Mathlib.Control.Monad.Basic
import ChunkedTransfer.Proofs.Verdict
import ChunkedTransfer.Transport.Fragments

/-!
# Resumption

A read that comes to nothing says why: the transport would block, it has failed, or it has come to its end. In each
case the buffer is used up, and the end is noted exactly if the transport has reported it
(`Source.Trace.exhausted_iff`).

After a read that waits for its transport the source waits too (`Source.Waits`): nothing is in its buffer, and the
next thing it does is to ask. If the transport blocks again then nothing but the transport changes, however often the
decoder is read (`Decoder.run_of_blocks`).
-/

namespace ChunkedTransfer

/-- Whether a transport would block. An interruption in front of such an answer counts as part of it. -/
def Reply.blocks : Reply → Bool
  | data _ => false
  | fault f => f.kind = .wouldBlock ∨ f.kind = .interrupted

/-- What an operation gives that has come to nothing because the transport blocks. -/
def Operation.blocked : Operation → Answer
  | .refill => .refilled false
  | _ => .progress .pending

/-- A poll goes past interruptions only. -/
theorem Transport.isInterrupted_of_mem_interruptions {τ : Type} [Transport τ] (t : τ) (room : Nat) :
    ∀ r ∈ (poll t room).interruptions, r.isInterrupted = true := by
  fun_induction poll t room with
  | case1 t r h p ih => exact List.forall_mem_cons.2 ⟨h, ih⟩
  | case2 t r h => simp

private theorem Outcome.events_subset_andThen {σ α β : Type} (r : Outcome σ α) (f : α → σ → Outcome σ β) :
    r.events ⊆ (r.andThen f).events := by
  unfold andThen
  split
  · exact List.subset_append_left ..
  · exact List.Subset.refl _

private theorem mem_replies_of_subset {es es' : List Event} (h : es ⊆ es') {r : Reply} (hr : r ∈ replies es) :
    r ∈ replies es' := by
  obtain ⟨e, he, hr⟩ := List.mem_filterMap.1 hr
  exact List.mem_filterMap.2 ⟨e, h he, hr⟩

namespace Source

variable {τ : Type}

/-- The source has to ask its transport, and can do so. -/
structure Waits (s : Source τ) : Prop where
  rests : s.Rests
  not_exhausted : s.exhausted = false
  capacity_pos : 0 < s.buffer.capacity

variable [Transport τ]

/-! ### The end of a transport -/

private theorem exhausted_receive {s : Source τ} (hx : s.exhausted = false) :
    s.receive.state.exhausted = true ↔ .ended ∈ replies s.receive.events := by
  -- An interruption is not the end, so only the last answer can be.
  have hmem : .ended ∈ replies s.receive.events ↔
      (Transport.poll s.transport s.buffer.space).reply = .ended := by
    rw [replies_receive, Polled.replies, List.mem_append, List.mem_singleton]
    constructor
    · rintro (h | h)
      · have := Transport.isInterrupted_of_mem_interruptions _ _ _ h
        simp [Reply.ended, Reply.isInterrupted] at this
      · exact h.symm
    · intro h
      exact .inr h.symm
  rw [hmem]
  unfold receive
  simp only
  split
  · rename_i h
    simp [h, Reply.ended]
  · rename_i h
    simp [h, hx, Reply.ended]
  · rename_i h
    simp [h, hx, Reply.ended]

/-- The end is noted exactly if the transport has reported it. -/
theorem Trace.exhausted_iff {s s' : Source τ} {es : List Event} (h : Trace s es s') :
    s'.exhausted = true ↔ s.exhausted = true ∨ .ended ∈ replies es := by
  induction h with
  | refl s => simp
  | trans _ _ ih ih' => rw [ih', ih, replies_append, List.mem_append, or_assoc]
  | recycle s => simp
  | clear => simp
  | receive hx => simp [exhausted_receive hx, hx]
  | take s n => simp
  | noteUsedUp s => simp
  | markDraining s => simp
  | report s result => simp
  | log s r => simp

/-! ### Sources that wait -/

private theorem receive_of_blocks {s : Source τ} (hb : ∀ a ∈ replies s.receive.events, a.blocks = true) :
    s.receive.result = .ok false ∧ ∃ t, s.receive.state = { s with transport := t } := by
  have hlast : (Transport.poll s.transport s.buffer.space).reply.blocks = true :=
    hb _ (by rw [replies_receive, Polled.replies]; exact List.mem_concat_self)
  have hi := Transport.not_isInterrupted_poll s.transport s.buffer.space
  unfold receive
  simp only
  split
  · rename_i hp
    simp [hp, Reply.blocks] at hlast
  · rename_i hp
    simp [hp, Reply.blocks] at hlast
  · rename_i f hp
    have hk : f.kind = .wouldBlock := by
      simp only [hp, Reply.blocks, Reply.isInterrupted, decide_eq_true_eq, decide_eq_false_iff_not] at hlast hi
      exact hlast.resolve_right hi
    exact ⟨if_pos hk, _, rfl⟩

private theorem Waits.refill_of_blocks {s : Source τ} (h : s.Waits)
    (hb : ∀ a ∈ replies s.refill.events, a.blocks = true) :
    s.refill.result = .ok false ∧ ∃ t, s.refill.state = { s with transport := t } := by
  rw [h.rests.refill_eq h.not_exhausted h.capacity_pos] at hb ⊢
  exact receive_of_blocks hb

private theorem Waits.replenish_of_blocks {s : Source τ} (h : s.Waits)
    (hb : ∀ a ∈ replies s.replenish.events, a.blocks = true) :
    s.replenish.result = .ok 0 ∧ ∃ t, s.replenish.state = { s with transport := t } := by
  -- Nothing is there to be used, and the buffer was cleared before.
  have hc : { s with flag := .filling, buffer := s.buffer.clear } = s := by
    rw [h.rests.clear_eq, ← h.rests.flag_eq]
  have he : s.replenish = s.refill.andThen fun refilled s => ⟨.ok (if refilled then s.available else 0), s, []⟩ := by
    rw [replenish, if_neg (by simp [h.rests.available_eq_zero]), hc]
  rw [he] at hb ⊢
  have hsubset := Outcome.events_subset_andThen s.refill fun refilled s =>
    (⟨.ok (if refilled then s.available else 0), s, []⟩ : Outcome (Source τ) Nat)
  obtain ⟨hr, t, ht⟩ := h.refill_of_blocks fun a ha => hb a (mem_replies_of_subset hsubset ha)
  rw [Outcome.andThen_of_ok hr]
  exact ⟨rfl, t, ht⟩

private theorem replenish_subset_read (s : Source τ) {room : Nat} (hr : 0 < room) :
    s.replenish.events ⊆ (s.read room).events := by
  rw [read, if_neg (by omega)]
  exact Outcome.events_subset_andThen ..

private theorem read_of_dry {s : Source τ} (h : s.replenish.result = .ok 0) {room : Nat} (hr : 0 < room) :
    s.read room = ⟨.ok [], s.replenish.state, s.replenish.events⟩ := by
  rw [read, if_neg (by omega), Outcome.andThen_of_ok h, if_pos rfl, Outcome.after, List.append_nil]

end Source

namespace Line

variable {τ : Type} [Transport τ]

private theorem replenish_subset_fill (δ : Dialect) (limit : Nat) (l : Line) (s : Source τ) :
    s.replenish.events ⊆ (l.fill δ limit s).events := by
  fun_cases fill δ limit l s with
  | case1 => exact List.Subset.refl _
  | case2 => exact List.Subset.refl _
  | case3 => exact List.subset_append_left ..
  | case4 => exact List.subset_append_left ..
  | case5 => exact List.Subset.trans (List.subset_append_left ..) (List.subset_append_left ..)

end Line

namespace Decoder

variable {τ : Type} [Transport τ]

/-! ### Reads that ask the transport first -/

private theorem replenish_subset_withLine (δ : Dialect) (limit : Nat) (accept : Decoder τ → StepOutcome τ)
    (d : Decoder τ) : d.source.replenish.events ⊆ (d.withLine δ limit accept).events := by
  have h := Line.replenish_subset_fill δ limit d.line d.source
  unfold withLine
  simp only
  split
  · exact h
  · exact List.Subset.trans h (List.subset_append_left ..)
  · exact List.Subset.trans h (List.subset_append_left ..)
  · exact List.Subset.trans h (List.subset_append_left ..)

private theorem replenish_subset_handOver {d : Decoder τ} {room : Nat} (hr : 0 < room) (hn : 0 < d.remaining) :
    d.source.replenish.events ⊆ (d.handOver room).events := by
  have hm : 0 < min room d.remaining.toNat := Nat.lt_min.2 ⟨hr, UInt64.lt_iff_toNat_lt.1 hn⟩
  have h := d.source.replenish_subset_read hm
  unfold handOver
  rw [if_neg (by omega)]
  simp only
  split
  · exact h
  · exact List.Subset.trans h (List.subset_append_left ..)
  · exact h

/-- Whatever a decoder reads, it replenishes its source first. -/
private theorem replenish_subset_step (δ : Dialect) {d : Decoder τ} (hp : d.phase.marker.IsReading) {room : Nat}
    (hr : 0 < room) : d.source.replenish.events ⊆ (d.step δ room).events := by
  unfold step
  split
  · exact d.replenish_subset_withLine ..
  · split
    · exact replenish_subset_handOver hr ‹_›
    · exact d.replenish_subset_withLine ..
  · exact d.replenish_subset_withLine ..
  · rename_i h
    exact absurd hp (settled_iff.2 (.inl h))
  · rename_i m e h
    exact absurd hp (settled_iff.2 (.inr ⟨m, e, h⟩))

private theorem step_subset_advance (δ : Dialect) (d : Decoder τ) (room : Nat) :
    (d.step δ room).events ⊆ (d.advance δ room).events := by
  fun_cases advance δ d room with
  | case1 => exact List.Subset.refl _
  | case2 => exact List.Subset.refl _
  | case3 => exact List.subset_append_left ..

private theorem withLine_of_dry {d : Decoder τ} (h : d.source.replenish.result = .ok 0) (δ : Dialect) (limit : Nat)
    (accept : Decoder τ → StepOutcome τ) :
    d.withLine δ limit accept =
      (stall { d with source := d.source.replenish.state }).after d.source.replenish.events := by
  rw [withLine, Line.fill_of_dry h]

private theorem handOver_of_dry {d : Decoder τ} (h : d.source.replenish.result = .ok 0) {room : Nat} (hr : 0 < room)
    (hn : 0 < d.remaining) :
    d.handOver room = (stall { d with source := d.source.replenish.state }).after d.source.replenish.events := by
  have hm : 0 < min room d.remaining.toNat := Nat.lt_min.2 ⟨hr, UInt64.lt_iff_toNat_lt.1 hn⟩
  rw [handOver, if_neg (by omega), Source.read_of_dry h hm]

/-- A decoder whose source has nothing to give stalls in whatever phase it reads. -/
private theorem step_of_dry (δ : Dialect) {d : Decoder τ} (hdry : d.source.replenish.result = .ok 0)
    (hp : d.phase.marker.IsReading) {room : Nat} (hr : 0 < room) :
    d.step δ room = (stall { d with source := d.source.replenish.state }).after d.source.replenish.events := by
  unfold step
  split
  · exact withLine_of_dry hdry ..
  · split
    · exact handOver_of_dry hdry hr ‹_›
    · exact withLine_of_dry hdry ..
  · exact withLine_of_dry hdry ..
  · rename_i h
    exact absurd hp (settled_iff.2 (.inl h))
  · rename_i m e h
    exact absurd hp (settled_iff.2 (.inr ⟨m, e, h⟩))

/-! ### Decoders that wait -/

/-- A read while the transport blocks leaves the decoder as it was. -/
private theorem read_of_blocks (δ : Dialect) {d : Decoder τ} (hp : d.phase.marker.IsReading) (hs : d.source.Waits)
    {room : Nat} (hr : 0 < room) (hb : ∀ a ∈ replies (d.read δ room).events, a.blocks = true) :
    (d.read δ room).result = .ok .pending ∧
      ∃ t, (d.read δ room).state = { d with source := { d.source with transport := t } } := by
  have hsubset : d.source.replenish.events ⊆ (d.read δ room).events :=
    List.Subset.trans (List.Subset.trans (replenish_subset_step δ hp hr) (d.step_subset_advance δ room))
      (List.subset_append_left ..)
  obtain ⟨hdry, t, ht⟩ := hs.replenish_of_blocks fun a ha => hb a (mem_replies_of_subset hsubset ha)
  have hstep := step_of_dry δ hdry hp hr
  have hx : Source.isExhausted { d.source with transport := t } = false := by
    rw [Source.isExhausted, hs.not_exhausted, Bool.false_and]
  rw [ht, stall, if_neg (by simp [hx])] at hstep
  have hadvance := advance_of_answer (p := .pending) (by rw [hstep]; rfl)
  rw [read, hadvance, hstep]
  exact ⟨rfl, t, rfl⟩

/-- As long as the transport blocks, a decoder that waits for it stays as it is. -/
theorem run_of_blocks (δ : Dialect) {d : Decoder τ} (hp : d.phase.marker.IsReading) (hs : d.source.Waits)
    {ops : List Operation} (ho : ∀ op ∈ ops, op.IsReading ∧ op ≠ .read 0)
    (hb : ∀ a ∈ replies (eventsOf (d.run δ ops)), a.blocks = true) :
    (d.run δ ops).map Outcome.result = ops.map (fun op => .ok op.blocked) ∧
      ∃ t, d.finish δ ops = { d with source := { d.source with transport := t } } := by
  induction ops generalizing d with
  | nil => exact ⟨rfl, d.source.transport, rfl⟩
  | cons op ops ih =>
    obtain ⟨hop, hops⟩ := List.forall_mem_cons.1 ho
    rw [run_cons, eventsOf_cons, replies_append] at hb
    obtain ⟨hb, hb'⟩ := List.forall_mem_append.1 hb
    have hperform : (d.perform δ op).result = .ok op.blocked ∧
        ∃ t, (d.perform δ op).state = { d with source := { d.source with transport := t } } := by
      rcases Operation.cases_of_isReading hop with ⟨room, hroom, rfl⟩ | rfl
      · obtain ⟨hr, hstate⟩ := read_of_blocks δ hp hs hroom hb
        exact ⟨Outcome.result_map_of_ok hr _, hstate⟩
      · obtain ⟨hr, t, ht⟩ := hs.refill_of_blocks hb
        exact ⟨Outcome.result_map_of_ok hr _, t, by rw [← ht]; rfl⟩
    obtain ⟨hr, t, ht⟩ := hperform
    have hs' : (d.perform δ op).state.source.Waits := by
      rw [ht]
      exact ⟨⟨hs.rests.flag_eq, hs.rests.clear_eq⟩, hs.not_exhausted, hs.capacity_pos⟩
    obtain ⟨hrun, t', ht'⟩ := ih (by rwa [ht]) hs' hops hb'
    refine ⟨by rw [run_cons, List.map_cons, hr, hrun, List.map_cons], t', ?_⟩
    rw [finish_cons, ht', ht]

/-- A read that comes to nothing has used up its buffer and says why. It waits only if the transport would
block, and has not come to its end. It finds the body cut short only if the transport has come to its end, now or
before. Any other fault that is not a framing error is what the transport has answered last. A decoder that waits is
left as it is by all reads and refills for which the transport blocks again. -/
theorem stalls_classified (δ : Dialect) (limits : Limits) {b : Buffer} (hb : 0 < b.capacity) (t : τ)
    {ops : List Operation} (ho : ∀ op ∈ ops, op.IsReading) (room : Nat) :
    let d := ofSource (.ofBuffer b t) limits
    let r := (d.finish δ ops).read δ room
    let answers := replies (eventsOf (d.run δ ops) ++ r.events)
    (r.result = .ok .pending →
      r.state.source.buffer.data = [] ∧ .ended ∉ answers ∧
        (∃ f, lastReply r.events = some (.fault f) ∧ f.kind = .wouldBlock) ∧
        ∀ ops', (∀ op ∈ ops', op.IsReading ∧ op ≠ .read 0) →
          (∀ a ∈ replies (eventsOf (r.state.run δ ops')), a.blocks = true) →
          (r.state.run δ ops').map Outcome.result = ops'.map (fun op => .ok op.blocked) ∧
            ∃ t', r.state.finish δ ops' = { r.state with source := { r.state.source with transport := t' } }) ∧
    ∀ f, r.result = .error f →
      (∃ m e, f = .framing e ∧ r.state.phase = .failed m e ∧
          ∀ p, e = .truncated p → r.state.source.buffer.data = [] ∧ .ended ∈ answers) ∨
        (r.state.phase.marker.IsReading ∧ r.state.source.buffer.data = [] ∧
          lastReply r.events = some (.fault f) ∧ f.kind ≠ .wouldBlock) := by
  intro d r answers
  have htrack := tracks_finish δ (tracks_ofBuffer hb t limits) ho
  have htrace := (d.trace_run δ ops).trans ((d.finish δ ops).trace_read δ room)
  have hended : r.state.source.exhausted = true ↔ .ended ∈ answers := by
    rw [htrace.exhausted_iff]
    simp [d, ofSource, Source.ofBuffer, answers, r]
  have hcapacity : 0 < r.state.source.buffer.capacity := by
    rw [((d.finish δ ops).trace_read δ room).capacity_eq]
    exact htrack.capacity_pos
  have hexplained : Explained room (r.map some) := explained_read δ htrack room
  refine ⟨fun hres => ?_, fun f hres => ?_⟩
  · obtain ⟨hp, hs, hx⟩ := hexplained.of_pending (Outcome.result_map_of_ok hres some)
    have hlast : ∃ f, lastReply r.events = some (.fault f) ∧ f.kind = .wouldBlock := by
      cases hs with
      | blocked _ _ hl hk => exact ⟨_, hl, hk⟩
      | exhausted _ hx' => exact absurd (hx.symm.trans hx') (by simp)
    refine ⟨hs.rests.data_eq_nil, ?_, hlast, fun ops' ho' hb' => ?_⟩
    · rw [← hended]
      exact Bool.eq_false_iff.1 hx
    · exact run_of_blocks δ hp ⟨hs.rests, hx, hcapacity⟩ ho' hb'
  · rcases hexplained.of_error (Outcome.result_map_of_error hres some) with ⟨m, e, rfl, hp, hd⟩ | ⟨hp, hs⟩
    · refine .inl ⟨m, e, rfl, hp, ?_⟩
      rintro p rfl
      obtain ⟨hx, hdata⟩ := hd m p hp
      exact ⟨hdata, hended.1 hx⟩
    · cases hs with
      | faulted hrests _ hl hk => exact .inr ⟨hp, hrests.data_eq_nil, hl, hk⟩

/-- A chunk without its payload, and two gaps before the transport closes. -/
theorem stalls_classified_before_payload :
    let t : Fragments := ⟨[.fragment 49 [13, 10], .gap, .gap], true⟩
    let d := ofSource (.ofBuffer (.ofStorage [0, 0]) t) {}
    let r := d.read .strict 4
    let r' := (d.finish .strict [.read 4, .refill]).read .strict 4
    (r.result = .ok .pending ∧ .ended ∉ replies r.events ∧
        ∃ t', r.state.finish .strict [.refill] = { r.state with source := { r.state.source with transport := t' } }) ∧
      r'.result = .error (.framing (.truncated .data)) ∧ r'.state.source.buffer.data = [] := by
  intro t d r r'
  have hb : 0 < (Buffer.ofStorage [0, 0]).capacity := by decide
  have hpending : r.result = .ok .pending := by decide +kernel
  have htruncated : r'.result = .error (.framing (.truncated .data)) := by decide +kernel
  obtain ⟨-, hended, -, hresume⟩ :=
    (stalls_classified .strict {} hb t (List.forall_mem_nil Operation.IsReading) 4).1 hpending
  obtain ⟨-, hstate⟩ := hresume [.refill] (by decide) (by decide +kernel)
  refine ⟨⟨hpending, hended, hstate⟩, htruncated, ?_⟩
  rcases (stalls_classified .strict {} hb t (show ∀ op ∈ [.read 4, .refill], Operation.IsReading op by decide) 4).2 _
    htruncated with ⟨m, e, he, -, hdata⟩ | ⟨-, hdata, -⟩
  · obtain rfl : FramingError.truncated .data = e := by simpa using he
    exact (hdata _ rfl).1
  · exact hdata

end Decoder

end ChunkedTransfer
