import ChunkedTransfer.Proofs.Stall

/-!
# Verdicts

The verdict on a body is that it is complete, that it was cut short, or that it is malformed, and in which phase.
A decoder is settled once it has given its verdict (`exists_concludes`), and stays as it is from then on. The verdict
can be read off the scan of the bytes that were taken (`concludes_of_mem_run`).
-/

namespace ChunkedTransfer

inductive Verdict
  | complete
  | truncated (phase : PhaseMarker)
  | malformed (phase : PhaseMarker)
  deriving DecidableEq, Repr

/-- The verdict on a body after which no more bytes come. -/
def Scan.verdict (s : Scan) : Verdict :=
  if s.rejected then .malformed s.phase
  else if s.phase = .terminated then .complete
  else .truncated s.phase

theorem Scan.verdict_eq_complete_iff {s : Scan} :
    s.verdict = .complete ↔ s.rejected = false ∧ s.phase = .terminated := by
  unfold verdict
  split
  · simp [*]
  · split
    · simp [*]
    · simp [*]

theorem Outcome.result_map_of_ok {σ α β : Type} {r : Outcome σ α} {a : α} (h : r.result = .ok a) (f : α → β) :
    (r.map f).result = .ok (f a) := by
  simp [map, h, Except.map]

theorem Outcome.result_map_of_error {σ α β : Type} {r : Outcome σ α} {e : Fault} (h : r.result = .error e)
    (f : α → β) : (r.map f).result = .error e := by
  simp [map, h, Except.map]

theorem Outcome.result_map_some_ne {σ α : Type} (r : Outcome σ α) : (r.map some).result ≠ .ok none := by
  cases h : r.result <;> simp [map, h, Except.map]

theorem Outcome.result_of_map_some {σ α : Type} {r : Outcome σ α} {a : α} (h : (r.map some).result = .ok (some a)) :
    r.result = .ok a := by
  cases hr : r.result with
  | ok b => simpa [map, hr, Except.map] using h
  | error f => simp [map, hr, Except.map] at h

private theorem Outcome.result_of_map_error {σ α β : Type} {r : Outcome σ α} {g : α → β} {f : Fault}
    (h : (r.map g).result = .error f) : r.result = .error f := by
  cases hr : r.result with
  | ok a => simp [map, hr, Except.map] at h
  | error f' => simpa [map, hr, Except.map] using h

/-- A reader that always offers room reads from the decoder or refills its source. -/
theorem Operation.cases_of_isReading {op : Operation} (h : op.IsReading ∧ op ≠ .read 0) :
    (∃ room, 0 < room ∧ op = .read room) ∨ op = .refill := by
  obtain ⟨⟨room, rfl⟩ | rfl, hz⟩ := h
  · exact .inl ⟨room, Nat.pos_of_ne_zero fun hr => hz (by rw [hr]), rfl⟩
  · exact .inr rfl

theorem Operation.IsReading.ne_next {op : Operation} (h : op.IsReading) (limits : Limits) : op ≠ .next limits := by
  rcases h with ⟨room, rfl⟩ | rfl <;> simp

namespace Decoder

variable {τ : Type}

/-- An operation answers with a verdict of the decoder. -/
inductive Concludes (r : Outcome (Decoder τ) Answer) : Verdict → Prop
  | complete (hr : r.result = .ok (.progress .ended)) : Concludes r .complete
  | truncated {m : PhaseMarker} (hr : r.result = .error (.framing (.truncated m)))
      (hp : r.state.phase = .failed m (.truncated m)) : Concludes r (.truncated m)
  | malformed {m : PhaseMarker} {e : FramingError} (hr : r.result = .error (.framing e)) (he : ∀ p, e ≠ .truncated p)
      (hp : r.state.phase = .failed m e) : Concludes r (.malformed m)

/-- What holds of a decoder in every run of reads and refills, with the scan of what was taken. -/
structure Tracks (d : Decoder τ) (s : Scan) : Prop where
  agrees : d.Agrees s
  drained : d.Drained
  consistent : d.source.Consistent
  capacity_pos : 0 < d.source.buffer.capacity

theorem tracks_ofBuffer {b : Buffer} (h : 0 < b.capacity) (t : τ) (limits : Limits) :
    (ofSource (.ofBuffer b t) limits).Tracks {} where
  agrees := agrees_ofSource _ _
  drained := drained_of_running rfl
  consistent := Source.consistent_ofBuffer b t
  capacity_pos := h

/-- The decoder has come to a verdict. -/
def Settled (d : Decoder τ) : Prop := ¬ d.phase.marker.IsReading

theorem settled_iff {d : Decoder τ} : d.Settled ↔ d.phase = .terminated ∨ ∃ m e, d.phase = .failed m e := by
  unfold Settled
  cases d.phase <;> simp [Phase.marker, PhaseMarker.IsReading]

theorem phase_cases (d : Decoder τ) :
    d.phase.marker.IsReading ∨ d.phase = .terminated ∨ ∃ m e, d.phase = .failed m e := by
  rw [← settled_iff]
  exact Classical.em _

theorem Agrees.of_terminated {d : Decoder τ} {s : Scan} (h : d.Agrees s) (hp : d.phase = .terminated) :
    s.rejected = false ∧ s.phase = .terminated := by
  obtain ⟨hr, hm, -, -⟩ := h.stands.of_running (by rw [hp]; rfl)
  exact ⟨hr, by rw [hm, hp]; rfl⟩

theorem Agrees.of_isReading {d : Decoder τ} {s : Scan} (h : d.Agrees s) (hp : d.phase.marker.IsReading) :
    s.rejected = false ∧ s.phase.IsReading := by
  have hf : d.phase.isFailed = false := by
    cases hq : d.phase with
    | failed m e => simp [hq, Phase.marker, PhaseMarker.IsReading] at hp
    | _ => rfl
  obtain ⟨hr, hm, -, -⟩ := h.stands.of_running hf
  exact ⟨hr, hm ▸ hp⟩

theorem Agrees.of_failed {d : Decoder τ} {s : Scan} {m : PhaseMarker} {e : FramingError} (h : d.Agrees s)
    (hp : d.phase = .failed m e) :
    s.phase = m ∧ m.IsReading ∧
      (s.rejected = false ∧ e = .truncated m ∨ s.rejected = true ∧ ∀ p, e ≠ .truncated p) := by
  have hs := h.stands
  rw [hp] at hs
  cases hs with
  | running hp' => simp [Phase.isFailed] at hp'
  | truncated hr hm => exact ⟨rfl, hm, .inl ⟨hr, rfl⟩⟩
  | malformed he hr hm => exact ⟨rfl, hm, .inr ⟨hr, he⟩⟩

private theorem Concludes.eq_verdict {r : Outcome (Decoder τ) Answer} {v : Verdict} (hv : Concludes r v) {s : Scan}
    (h : r.state.Agrees s) (ht : v = .complete → r.state.phase = .terminated) : v = s.verdict := by
  cases hv with
  | complete hr =>
    obtain ⟨hr, hp⟩ := h.of_terminated (ht rfl)
    simp [Scan.verdict, hr, hp]
  | truncated hr hp =>
    obtain ⟨rfl, hm, ⟨hs, -⟩ | ⟨-, he⟩⟩ := h.of_failed hp
    · have hn : s.phase ≠ .terminated := by rcases hm with hm | hm | hm <;> simp [hm]
      simp [Scan.verdict, hs, hn]
    · exact absurd rfl (he _)
  | malformed hr he hp =>
    obtain ⟨rfl, -, ⟨-, he'⟩ | ⟨hs, -⟩⟩ := h.of_failed hp
    · exact absurd he' (he _)
    · simp [Scan.verdict, hs]

variable [Transport τ]

theorem phase_advance_of_ended {δ : Dialect} {d : Decoder τ} {room : Nat}
    (h : (d.advance δ room).result = .ok .ended) : (d.advance δ room).state.phase = .terminated := by
  fun_induction advance δ d room with
  | case1 d r f hr => simp at h
  | case2 d r p hr =>
    obtain rfl : p = .ended := by simpa using h
    obtain ⟨hphase, hs⟩ := step_of_ended hr
    simp [r, hs, hphase]
  | case3 d r hr ih => exact ih h

/-- Only a read of the decoder makes progress. -/
theorem exists_read_of_progress {δ : Dialect} {d : Decoder τ} {op : Operation} {p : Progress Bytes}
    (h : (d.perform δ op).result = .ok (.progress p)) : ∃ room, op = .read room ∧ (d.read δ room).result = .ok p := by
  have hsource {α : Type} {answer : α → Answer} (ha : ∀ a, answer a ≠ .progress p) (r : Outcome (Source τ) α) :
      (d.onSource answer r).result ≠ .ok (.progress p) := by
    cases hr : r.result with
    | ok a => simpa [onSource, Outcome.map, Outcome.mapState, hr, Except.map] using ha a
    | error f => simp [onSource, Outcome.map, Outcome.mapState, hr, Except.map]
  cases op with
  | read room =>
    refine ⟨room, rfl, ?_⟩
    cases hr : (d.read δ room).result with
    | ok q => simpa [perform, Outcome.map, hr, Except.map] using h
    | error f => simp [perform, Outcome.map, hr, Except.map] at h
  | refill => exact absurd h (hsource (by simp) _)
  | take room => exact absurd h (hsource (by simp) _)
  | replenish => exact absurd h (hsource (by simp) _)
  | noteUsedUp => simp [perform] at h
  | markDraining => simp [perform] at h
  | next limits => simp [perform] at h

/-- A decoder that tells the end has come to it. -/
theorem phase_perform_of_ended {δ : Dialect} {d : Decoder τ} {op : Operation}
    (h : (d.perform δ op).result = .ok (.progress .ended)) : (d.perform δ op).state.phase = .terminated := by
  obtain ⟨room, rfl, hr⟩ := exists_read_of_progress h
  exact phase_advance_of_ended hr

theorem explained_read (δ : Dialect) {d : Decoder τ} {s : Scan} (h : d.Tracks s) (room : Nat) :
    Explained room ((d.read δ room).map some) := by
  cases explained_advance δ d room h.agrees h.drained h.capacity_pos with
  | goOn he => exact absurd he (Outcome.result_map_some_ne _)
  | read he hb hp => exact .read he hb hp
  | pending he hp hs hx => exact .pending he hp (hs.report _) (by simpa [read] using hx)
  | ended he hp => exact .ended he hp
  | fault he hp hs => exact .fault he hp (hs.report _)
  | failed he hp hd => exact .failed he hp fun m p hm => by simpa [read] using hd m p hm

/-- An operation fails with a verdict, or because the transport has answered with a fault. -/
theorem perform_of_error (δ : Dialect) {d : Decoder τ} {s : Scan} (h : d.Tracks s) {op : Operation}
    (ho : op.IsReading) {f : Fault} (he : (d.perform δ op).result = .error f) :
    (∃ m e, f = .framing e ∧ (d.perform δ op).state.phase = .failed m e) ∨
      lastReply (d.perform δ op).events = some (.fault f) ∧ f.kind ≠ .wouldBlock := by
  rcases ho with ⟨room, rfl⟩ | rfl
  · have hres : ((d.read δ room).map some).result = .error f :=
      Outcome.result_map_of_error (Outcome.result_of_map_error he) some
    rcases (explained_read δ h room).of_error hres with ⟨m, e, rfl, hp, -⟩ | ⟨-, hs⟩
    · exact .inl ⟨m, e, rfl, hp⟩
    · cases hs with
      | faulted _ _ hl hk => exact .inr ⟨hl, hk⟩
  · exact .inr (Source.refill_of_error h.capacity_pos (Outcome.result_of_map_error he))

private theorem drained_perform (δ : Dialect) {d : Decoder τ} {s : Scan} (h : d.Tracks s) {op : Operation}
    (ho : op.IsReading) : (d.perform δ op).state.Drained := by
  rcases ho with ⟨room, rfl⟩ | rfl
  · exact (explained_read δ h room).drained
  · intro m p hm
    obtain ⟨hx, hd⟩ := h.drained m p hm
    have hr : d.source.refill = ⟨.ok false, d.source, []⟩ := if_pos hx
    simp only [perform, onSource, hr]
    exact ⟨hx, hd⟩

theorem tracks_perform (δ : Dialect) {d : Decoder τ} {s : Scan} (h : d.Tracks s) {op : Operation}
    (ho : op.IsReading) :
    (d.perform δ op).state.Tracks (s.feed δ d.limits (consumed (d.perform δ op).events)) where
  agrees := (follows_perform δ h.agrees ho).agrees
  drained := drained_perform δ h ho
  consistent := ((d.trace_perform δ op).conserves h.consistent).1
  capacity_pos := by
    rw [(d.trace_perform δ op).capacity_eq]
    exact h.capacity_pos

theorem tracks_finish (δ : Dialect) {d : Decoder τ} {s : Scan} (h : d.Tracks s) {ops : List Operation}
    (ho : ∀ op ∈ ops, op.IsReading) :
    (d.finish δ ops).Tracks (s.feed δ d.limits (consumed (eventsOf (d.run δ ops)))) := by
  induction ops generalizing d s with
  | nil => exact h
  | cons op ops ih =>
    obtain ⟨hop, hops⟩ := List.forall_mem_cons.1 ho
    have := ih (tracks_perform δ h hop) hops
    rw [(follows_perform δ h.agrees hop).limits_eq] at this
    simpa [Scan.feed_append] using this

/-! ### A decoder that has given its verdict -/

/-- A decoder that is at its end tells so again, and only reports it to its source. -/
theorem read_of_terminated (δ : Dialect) {d : Decoder τ} (h : d.phase = .terminated) (room : Nat) :
    d.read δ room = ⟨.ok .ended, { d with source := (d.source.report (.ok .ended)).1 },
      (d.source.report (.ok .ended)).2⟩ := by
  have hs : d.step δ room = ⟨.ok (some .ended), d, []⟩ := by rw [step, h]
  have ha : d.advance δ room = _ := advance_of_answer (p := .ended) (by rw [hs])
  rw [read, ha, hs]
  rfl

/-- A decoder that has failed gives the error of its failure again, and stays as it is. -/
theorem read_of_failed (δ : Dialect) {d : Decoder τ} {m : PhaseMarker} {e : FramingError} (h : d.phase = .failed m e)
    (room : Nat) : d.read δ room = ⟨.error (.framing e), d, [.logged (.readFailed (.framing e))]⟩ := by
  have hs : d.step δ room = ⟨.error (.framing e), d, []⟩ := by rw [step, h]
  have ha : d.advance δ room = _ := advance_of_error (f := .framing e) (by rw [hs])
  rw [read, ha, hs]
  rfl

theorem perform_of_settled {δ : Dialect} {d : Decoder τ} (hp : d.Settled) {op : Operation}
    (ho : op.IsReading) : (d.perform δ op).state.phase = d.phase ∧ consumed (d.perform δ op).events = [] := by
  rcases ho with ⟨room, rfl⟩ | rfl
  · rcases settled_iff.1 hp with h | ⟨m, e, h⟩
    · simp [perform, read_of_terminated δ h]
    · simp [perform, read_of_failed δ h]
  · exact ⟨rfl, d.source.consumed_refill⟩

theorem finish_of_settled {δ : Dialect} {d : Decoder τ} (hp : d.Settled) {ops : List Operation}
    (ho : ∀ op ∈ ops, op.IsReading) :
    (d.finish δ ops).phase = d.phase ∧ consumed (eventsOf (d.run δ ops)) = [] := by
  induction ops generalizing d with
  | nil => exact ⟨rfl, rfl⟩
  | cons op ops ih =>
    obtain ⟨hop, hops⟩ := List.forall_mem_cons.1 ho
    obtain ⟨hphase, hc⟩ := perform_of_settled (δ := δ) hp hop
    obtain ⟨hphase', hc'⟩ := ih (d := (d.perform δ op).state) (by rwa [Settled, hphase]) hops
    exact ⟨hphase'.trans hphase, by simp [hc, hc']⟩

/-- Whatever is done with a settled decoder, or past it with its source, leaves it in its phase. -/
private theorem phase_perform_of_settled {δ : Dialect} {d : Decoder τ} (hp : d.Settled) {op : Operation}
    (ho : ∀ l, op ≠ .next l) : (d.perform δ op).state.phase = d.phase := by
  rcases d.perform_cases δ op with hr | ⟨l, rfl⟩ | ⟨-, source, hs⟩
  · exact (perform_of_settled hp (.inl hr)).1
  · exact absurd rfl (ho l)
  · rw [hs]

theorem phase_finish_of_settled (δ : Dialect) {d : Decoder τ} (hp : d.Settled) {ops : List Operation}
    (ho : ∀ op ∈ ops, ∀ l, op ≠ .next l) : (d.finish δ ops).phase = d.phase := by
  induction ops generalizing d with
  | nil => rfl
  | cons op ops ih =>
    obtain ⟨hop, hops⟩ := List.forall_mem_cons.1 ho
    have hp' := phase_perform_of_settled (δ := δ) hp hop
    rw [finish_cons, ih (d := (d.perform δ op).state) (by rwa [Settled, hp']) hops, hp']

/-- A settled decoder hands over nothing. -/
theorem delivered_of_settled {δ : Dialect} {d : Decoder τ} (hp : d.Settled) {ops : List Operation}
    (ho : ∀ op ∈ ops, ∀ l, op ≠ .next l) : delivered (d.run δ ops) = [] := by
  induction ops generalizing d with
  | nil => rfl
  | cons op ops ih =>
    obtain ⟨hop, hops⟩ := List.forall_mem_cons.1 ho
    have hpayload : (d.perform δ op).bytesOf Answer.payload = [] := by
      rcases d.perform_cases δ op with ⟨room, rfl⟩ | ⟨l, rfl⟩ | ⟨hpayload, -⟩
      · rcases settled_iff.1 hp with h | ⟨m, e, h⟩
        · rw [perform, read_of_terminated δ h]
          rfl
        · rw [perform, read_of_failed δ h]
          rfl
      · exact absurd rfl (hop l)
      · exact hpayload
    have hp' : (d.perform δ op).state.Settled := by rwa [Settled, phase_perform_of_settled hp hop]
    rw [run_cons, delivered_cons, hpayload, ih hp' hops, List.append_nil]

/-- A decoder that has come to its verdict in a run is in the same phase after the run. -/
theorem phase_finish_of_mem_run {δ : Dialect} {d : Decoder τ} {ops : List Operation}
    (ho : ∀ op ∈ ops, ∀ l, op ≠ .next l) {r : Outcome (Decoder τ) Answer} (hm : r ∈ d.run δ ops)
    (hs : r.state.Settled) : (d.finish δ ops).phase = r.state.phase := by
  induction ops generalizing d with
  | nil => simp at hm
  | cons op ops ih =>
    obtain ⟨-, hops⟩ := List.forall_mem_cons.1 ho
    rw [run_cons, List.mem_cons] at hm
    rw [finish_cons]
    rcases hm with rfl | hm
    · exact phase_finish_of_settled δ hs hops
    · exact ih hops hm

/-- A decoder comes to no more than one verdict in a run. -/
theorem phase_eq_of_mem_run {δ : Dialect} {d : Decoder τ} {ops : List Operation}
    (ho : ∀ op ∈ ops, ∀ l, op ≠ .next l) {r r' : Outcome (Decoder τ) Answer} (hr : r ∈ d.run δ ops)
    (hr' : r' ∈ d.run δ ops) (hs : r.state.Settled) (hs' : r'.state.Settled) : r.state.phase = r'.state.phase :=
  (phase_finish_of_mem_run ho hr hs).symm.trans (phase_finish_of_mem_run ho hr' hs')

/-- A decoder that has told the end in a run is at the end after it. -/
theorem phase_finish_of_ended {δ : Dialect} {d : Decoder τ} {ops : List Operation} (ho : ∀ op ∈ ops, op.IsReading)
    {r : Outcome (Decoder τ) Answer} (hm : r ∈ d.run δ ops) (hr : r.result = .ok (.progress .ended)) :
    (d.finish δ ops).phase = .terminated := by
  obtain ⟨e, op, hop, rfl⟩ := exists_of_mem_run hm
  have hp := phase_perform_of_ended hr
  exact (phase_finish_of_mem_run (fun op hm => (ho op hm).ne_next) hm (settled_iff.2 (.inl hp))).trans hp

/-! ### The verdict of the scan -/

/-- An operation that gives a verdict leaves a decoder that gives no other, and the verdict is that of the scan. -/
private theorem Concludes.settled {δ : Dialect} {d : Decoder τ} {s : Scan} (h : d.Tracks s) {op : Operation}
    (ho : op.IsReading ∧ op ≠ .read 0) {v : Verdict} (hv : Concludes (d.perform δ op) v) :
    (d.perform δ op).state.Settled ∧
      v = (s.feed δ d.limits (consumed (d.perform δ op).events)).verdict := by
  have ha := (tracks_perform δ h ho.1).agrees
  have hended : v = .complete → (d.perform δ op).state.phase = .terminated := by
    rintro rfl
    cases hv with
    | complete hr => exact phase_perform_of_ended hr
  refine ⟨settled_iff.2 ?_, hv.eq_verdict ha hended⟩
  cases hv with
  | complete hr => exact .inl (hended rfl)
  | truncated hr hp => exact .inr ⟨_, _, hp⟩
  | malformed hr he hp => exact .inr ⟨_, _, hp⟩

/-- A verdict given in the course of a run is that of the scan of all bytes taken in the run. -/
theorem concludes_of_mem_run (δ : Dialect) {d : Decoder τ} {s : Scan} (h : d.Tracks s) {ops : List Operation}
    (ho : ∀ op ∈ ops, op.IsReading ∧ op ≠ .read 0) {r : Outcome (Decoder τ) Answer} (hm : r ∈ d.run δ ops)
    {v : Verdict} (hv : Concludes r v) :
    (d.finish δ ops).Settled ∧
      v = (s.feed δ d.limits (consumed (eventsOf (d.run δ ops)))).verdict := by
  induction ops generalizing d s with
  | nil => simp at hm
  | cons op ops ih =>
    obtain ⟨hop, hops⟩ := List.forall_mem_cons.1 ho
    rw [run_cons, List.mem_cons] at hm
    rw [run_cons, finish_cons, eventsOf_cons, consumed_append]
    rcases hm with rfl | hm
    · -- The operations after the verdict take no bytes.
      obtain ⟨hs, hv'⟩ := hv.settled h hop
      obtain ⟨hp, hc⟩ := finish_of_settled (δ := δ) hs fun op hm => (hops op hm).1
      exact ⟨by rwa [Settled, hp], by rw [hc, List.append_nil, hv']⟩
    · have := ih (tracks_perform δ h hop.1) hops hm
      rwa [(follows_perform δ h.agrees hop.1).limits_eq, ← Scan.feed_append] at this

/-- Whoever finds a decoder settled that was not so before has been given its verdict in between. -/
theorem exists_concludes (δ : Dialect) {d : Decoder τ} {s : Scan} (h : d.Tracks s) {ops : List Operation}
    (ho : ∀ op ∈ ops, op.IsReading ∧ op ≠ .read 0) (hp : d.phase.marker.IsReading)
    (hs : (d.finish δ ops).Settled) : ∃ r ∈ d.run δ ops, ∃ v, Concludes r v := by
  induction ops generalizing d s with
  | nil => exact absurd hp hs
  | cons op ops ih =>
    obtain ⟨hop, hops⟩ := List.forall_mem_cons.1 ho
    by_cases hp' : (d.perform δ op).state.phase.marker.IsReading
    · obtain ⟨r, hr, hv⟩ := ih (tracks_perform δ h hop.1) hops hp' hs
      exact ⟨r, List.mem_cons_of_mem _ hr, hv⟩
    · -- This operation has settled the decoder, so it was a read.
      refine ⟨_, List.mem_cons_self .., ?_⟩
      have ha := (tracks_perform δ h hop.1).agrees
      rcases Operation.cases_of_isReading hop with ⟨room, hroom, rfl⟩ | rfl
      · cases explained_read δ h room with
        | goOn hr => exact absurd hr (Outcome.result_map_some_ne _)
        | read _ _ hq => exact absurd hq hp'
        | pending _ hq => exact absurd hq hp'
        | ended hr hq =>
          exact ⟨_, .complete (Outcome.result_map_of_ok (Outcome.result_of_map_some hr) _)⟩
        | fault _ hq => exact absurd hq hp'
        | @failed m e hr hq hd =>
          have hr' : (d.perform δ (.read room)).result = .error (.framing e) :=
            Outcome.result_map_of_error (Outcome.result_of_map_error hr) _
          obtain ⟨-, -, ⟨-, rfl⟩ | ⟨-, he⟩⟩ := ha.of_failed (m := m) (e := e) hq
          · exact ⟨_, .truncated hr' hq⟩
          · exact ⟨_, .malformed hr' he hq⟩
      · exact absurd hp hp'

end Decoder

end ChunkedTransfer
