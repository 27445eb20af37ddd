import ChunkedTransfer.Proofs.Accounting
import ChunkedTransfer.Proofs.Verdict

/-!
# Finality

A decoder that has come to its end, or has failed, answers every further read in the same way and does nothing else
(`read_of_terminated`, `read_of_failed`). A fault that comes out of a read is that of a decoder which has failed, or
it comes from below and leaves the decoder in use (`attributed_advance`).

The listener of a source is told of a complete stream once. Its being told and the note that the source takes of it
go together (`Source.Trace.completions_eq`), and the note is taken by the first read that tells the end
(`announced_finish`). It stays with the source when the next decoder takes its place.
-/

namespace ChunkedTransfer

/-! ### Faults from below -/

/-- The fault is one of the source or of its transport. -/
def Fault.FromBelow (f : Fault) (es : List Event) : Prop := f = .zeroCapacity ∨ lastReply es = some (.fault f)

private theorem Fault.FromBelow.after {f : Fault} {es : List Event} (h : f.FromBelow es) (es' : List Event) :
    f.FromBelow (es' ++ es) := h.imp_right lastReply_append

private theorem Fault.FromBelow.lastReply_eq {e : FramingError} {es : List Event} (h : (framing e).FromBelow es) :
    lastReply es = some (.fault (.framing e)) := by
  rcases h with h | h
  · simp at h
  · exact h

namespace Source

variable {τ : Type} [Transport τ]

theorem fromBelow_refill {s : Source τ} {f : Fault} (h : s.refill.result = .error f) : f.FromBelow s.refill.events :=
  (refill_of_error_cases h).imp And.right And.left

theorem fromBelow_replenish {s : Source τ} {f : Fault} (h : s.replenish.result = .error f) :
    f.FromBelow s.replenish.events := by
  unfold replenish at h ⊢
  split at h
  · simp at h
  · rename_i ha
    rw [if_neg ha]
    cases hr : (refill { s with flag := .filling, buffer := s.buffer.clear }).result with
    | ok refilled => simp [Outcome.andThen_of_ok hr] at h
    | error g =>
      rw [Outcome.andThen_of_error hr] at h ⊢
      obtain rfl : g = f := by simpa using h
      exact fromBelow_refill hr

theorem fromBelow_read {s : Source τ} {room : Nat} {f : Fault} (h : (s.read room).result = .error f) :
    f.FromBelow (s.read room).events := by
  unfold read at h ⊢
  split at h
  · simp at h
  · rename_i hz
    rw [if_neg hz]
    cases hr : s.replenish.result with
    | ok n =>
      rw [Outcome.andThen_of_ok hr, Outcome.result_after] at h
      split at h <;> simp at h
    | error g =>
      rw [Outcome.andThen_of_error hr] at h ⊢
      obtain rfl : g = f := by simpa using h
      exact fromBelow_replenish hr

end Source

private theorem Line.fromBelow_fill {τ : Type} [Transport τ] {δ : Dialect} {limit : Nat} {l : Line} {s : Source τ}
    {f : Fault} (h : (l.fill δ limit s).result = .error f) : f.FromBelow (l.fill δ limit s).events := by
  fun_induction fill δ limit l s with
  | case1 l s r g hr =>
    obtain rfl : g = f := by simpa using h
    exact Source.fromBelow_replenish hr
  | case2 l s r hr => simp at h
  | case3 l s r n hr a s' events e ha => simp at h
  | case4 l s r n hr a s' events ha => simp at h
  | case5 l s r n hr a s' events state ha hstate ih => exact (ih h).after _

/-! ### News of a complete stream -/

/-- How often the listener was told that the stream is complete. -/
def completions (es : List Event) : Nat := es.countP Event.isCompleted

@[simp] theorem completions_append (es es' : List Event) :
    completions (es ++ es') = completions es + completions es' := List.countP_append

private theorem completions_eq_zero {es : List Event} (h : ∀ e ∈ es, e.OfSource) : completions es = 0 := by
  refine List.countP_eq_zero.2 fun e he => ?_
  cases h e he <;> simp [Event.isCompleted]

namespace Source

variable {τ : Type}

private theorem announced_report (s : Source τ) (result : Except Fault (Progress Nat)) :
    (s.report result).1.announced = true ↔ s.announced = true ∨ result = .ok .ended := by
  unfold report
  split
  · split <;> simp [*]
  · rename_i progress hp
    simpa using fun he => absurd he hp
  · simp

/-- The end of a stream is no news for a source that has taken note of it. -/
private theorem report_of_announced {s : Source τ} (h : s.announced = true) :
    s.report (.ok .ended) = (s, []) := if_pos h

variable [Transport τ]

private theorem announced_receive (s : Source τ) : s.receive.state.announced = s.announced := by
  unfold receive
  simp only
  split <;> rfl

/-- The listener is told exactly when the source takes note that it was. -/
theorem Trace.completions_eq {s s' : Source τ} {es : List Event} (h : Trace s es s') :
    s.announced.toNat + completions es = s'.announced.toNat := by
  induction h with
  | refl s => rfl
  | trans _ _ ih ih' => rw [completions_append, ← ih', ← ih, Nat.add_assoc]
  | recycle s => rw [announced_recycle]; rfl
  | clear => rfl
  | @receive s => rw [completions_eq_zero s.ofSource_receive, announced_receive, Nat.add_zero]
  | take s n => rw [announced_noteUsedUp]; rfl
  | noteUsedUp s => rw [announced_noteUsedUp]; rfl
  | markDraining s => rfl
  | report s result =>
    unfold Source.report
    split
    · split
      · rfl
      · rename_i ha
        simp [completions, Event.isCompleted, ha]
    · rfl
    · rfl
  | log s r => rfl

/-- What a source does by itself is no news of a complete stream. -/
private theorem Trace.announced_eq {s s' : Source τ} {es : List Event} (h : Trace s es s') (he : ∀ e ∈ es, e.OfSource) :
    s'.announced = s.announced := by
  have := h.completions_eq
  rw [completions_eq_zero he, Nat.add_zero] at this
  cases hs : s.announced <;> cases hs' : s'.announced <;> simp [hs, hs'] at this ⊢

/-- The news does not get lost. -/
private theorem Trace.announced_of_announced {s s' : Source τ} {es : List Event} (h : Trace s es s')
    (ha : s.announced = true) : s'.announced = true := by
  have := h.completions_eq
  cases hs : s'.announced with
  | true => rfl
  | false => simp [ha, hs] at this

end Source

namespace Decoder

variable {τ α : Type}

/-- A fault in the outcome is the error of a decoder that has failed, or it comes from below and the decoder has not
failed. -/
def Attributed (r : Outcome (Decoder τ) α) : Prop :=
  ∀ f, r.result = .error f → (∃ m e, f = .framing e ∧ r.state.phase = .failed m e) ∨
    r.state.phase.isFailed = false ∧ f.FromBelow r.events

private theorem attributed_of_ok {r : Outcome (Decoder τ) α} {a : α} (h : r.result = .ok a) : Attributed r := by
  intro f hf
  simp [h] at hf

private theorem attributed_fail (d : Decoder τ) (e : FramingError) : Attributed (d.fail e : Outcome (Decoder τ) α) := by
  intro f hf
  obtain rfl : _ = f := by simpa [fail] using hf
  exact .inl ⟨_, _, rfl, rfl⟩

private theorem Attributed.after {r : Outcome (Decoder τ) α} (h : Attributed r) (es : List Event) :
    Attributed (r.after es) :=
  fun f hf => (h f hf).imp_right fun hb => ⟨hb.1, hb.2.after es⟩

private theorem attributed_stall (d : Decoder τ) : Attributed d.stall := by
  unfold stall
  split
  · exact d.attributed_fail _
  · exact attributed_of_ok rfl

private theorem attributed_acceptSizeLine (d : Decoder τ) : Attributed d.acceptSizeLine := by
  unfold acceptSizeLine
  split
  · exact d.attributed_fail _
  · split <;> exact attributed_of_ok rfl

private theorem attributed_acceptTerminator (d : Decoder τ) : Attributed d.acceptTerminator := by
  unfold acceptTerminator
  split
  · exact attributed_of_ok rfl
  · exact d.attributed_fail _

private theorem attributed_acceptTrailerLine (δ : Dialect) (d : Decoder τ) : Attributed (d.acceptTrailerLine δ) := by
  unfold acceptTrailerLine
  split <;> exact attributed_of_ok rfl

variable [Transport τ]

private theorem attributed_withLine (δ : Dialect) (limit : Nat) {accept : Decoder τ → StepOutcome τ} {d : Decoder τ}
    (hp : d.phase.isFailed = false) (ha : ∀ e, Attributed (accept e)) : Attributed (d.withLine δ limit accept) := by
  unfold withLine
  simp only
  split
  · rename_i g hg
    intro f hf
    obtain rfl : g = f := by simpa using hf
    exact .inr ⟨hp, Line.fromBelow_fill hg⟩
  · exact (attributed_stall _).after _
  · exact (attributed_fail _ _).after _
  · exact (ha _).after _

private theorem attributed_handOver {d : Decoder τ} (hp : d.phase.isFailed = false) (room : Nat) :
    Attributed (d.handOver room) := by
  unfold handOver
  split
  · exact attributed_of_ok rfl
  · simp only
    split
    · rename_i g hg
      intro f hf
      obtain rfl : g = f := by simpa using hf
      exact .inr ⟨hp, Source.fromBelow_read hg⟩
    · exact (attributed_stall _).after _
    · exact attributed_of_ok rfl

private theorem attributed_step (δ : Dialect) (d : Decoder τ) (room : Nat) : Attributed (d.step δ room) := by
  unfold step
  split
  · rename_i hp
    exact attributed_withLine δ _ (by rw [hp]; rfl) attributed_acceptSizeLine
  · rename_i hp
    have hf : d.phase.isFailed = false := by rw [hp]; rfl
    split
    · exact attributed_handOver hf room
    · exact attributed_withLine δ _ hf attributed_acceptTerminator
  · rename_i hp
    exact attributed_withLine δ _ (by rw [hp]; rfl) (attributed_acceptTrailerLine δ)
  · exact attributed_of_ok rfl
  · rename_i m e hp
    intro f hf
    obtain rfl : _ = f := by simpa using hf
    exact .inl ⟨m, e, rfl, hp⟩

theorem attributed_advance (δ : Dialect) (d : Decoder τ) (room : Nat) : Attributed (d.advance δ room) := by
  fun_induction advance δ d room with
  | case1 d r f hr =>
    intro g hg
    obtain rfl : f = g := by simpa using hg
    exact attributed_step δ d room f hr
  | case2 d r p hr => exact attributed_of_ok rfl
  | case3 d r hr ih => exact ih.after _

/-- A framing error comes out of a read because the decoder has failed with it, unless it is what the transport has
answered. -/
theorem read_of_framing {δ : Dialect} {d : Decoder τ} {room : Nat} {e : FramingError}
    (h : (d.read δ room).result = .error (.framing e)) :
    (∃ m, (d.read δ room).state.phase = .failed m e) ∨
      (d.read δ room).state.phase.isFailed = false ∧
        lastReply (d.read δ room).events = some (.fault (.framing e)) := by
  rcases attributed_advance δ d room _ h with ⟨m, e', he, hp⟩ | ⟨hp, hb⟩
  · obtain rfl : e = e' := by simpa using he
    exact .inl ⟨m, hp⟩
  · refine .inr ⟨hp, ?_⟩
    rw [read, lastReply_append_of_replies (Source.replies_report _ _)]
    exact hb.lastReply_eq

/-- A read that leaves a failed decoder gives the error of the failure. -/
theorem result_read_of_failed {δ : Dialect} {d : Decoder τ} {room : Nat} {m : PhaseMarker} {e : FramingError}
    (hp : (d.read δ room).state.phase = .failed m e) : (d.read δ room).result = .error (.framing e) := by
  have hp' : (d.advance δ room).state.phase = .failed m e := hp
  cases hr : (d.advance δ room).result with
  | ok p =>
    have := unfailed_advance δ d room p hr
    simp [hp', Phase.isFailed] at this
  | error f =>
    rcases attributed_advance δ d room f hr with ⟨m', e', rfl, hp''⟩ | ⟨hf, -⟩
    · obtain ⟨-, rfl⟩ : m = m' ∧ e = e' := by simpa [hp'] using hp''
      exact hr
    · simp [hp', Phase.isFailed] at hf

/-! ### The note of a complete stream -/

private theorem announced_withLine (δ : Dialect) (limit : Nat) {accept : Decoder τ → StepOutcome τ} (d : Decoder τ)
    (ha : ∀ e : Decoder τ, (accept e).state.source = e.source) :
    (d.withLine δ limit accept).state.source.announced = d.source.announced := by
  have h := (Line.trace_fill δ limit d.line d.source).announced_eq (Line.ofSource_fill δ limit d.line d.source)
  unfold withLine
  simp only
  split
  · exact h
  · simpa [source_stall] using h
  · exact h
  · simpa [ha] using h

private theorem announced_handOver (d : Decoder τ) (room : Nat) :
    (d.handOver room).state.source.announced = d.source.announced := by
  have h := (d.source.trace_read (min room d.remaining.toNat)).announced_eq (d.source.ofSource_read _)
  unfold handOver
  split
  · rfl
  · simp only
    split
    · exact h
    · simpa [source_stall] using h
    · exact h

private theorem announced_step (δ : Dialect) (d : Decoder τ) (room : Nat) :
    (d.step δ room).state.source.announced = d.source.announced := by
  unfold step
  split
  · exact announced_withLine δ _ d source_acceptSizeLine
  · split
    · exact d.announced_handOver room
    · exact announced_withLine δ _ d source_acceptTerminator
  · exact announced_withLine δ _ d (source_acceptTrailerLine δ)
  · rfl
  · rfl

private theorem announced_advance (δ : Dialect) (d : Decoder τ) (room : Nat) :
    (d.advance δ room).state.source.announced = d.source.announced := by
  fun_induction advance δ d room with
  | case1 d r f hr => exact announced_step δ d room
  | case2 d r p hr => exact announced_step δ d room
  | case3 d r hr ih => exact ih.trans (announced_step δ d room)

private theorem announced_read (δ : Dialect) (d : Decoder τ) (room : Nat) :
    (d.read δ room).state.source.announced = true ↔
      d.source.announced = true ∨ (d.read δ room).result = .ok .ended := by
  have hended : (d.advance δ room).result.map (Progress.map List.length) = .ok .ended ↔
      (d.advance δ room).result = .ok .ended := by
    match (d.advance δ room).result with
    | .ok (.read bs) => simp [Except.map, Progress.map]
    | .ok .pending => simp [Except.map, Progress.map]
    | .ok .ended => simp [Except.map, Progress.map]
    | .error f => simp [Except.map]
  rw [read, Source.announced_report, announced_advance, hended]

/-- A source has taken note of a complete stream when a read of a decoder on it has told the end. -/
private theorem announced_perform (δ : Dialect) (d : Decoder τ) (op : Operation) :
    (d.perform δ op).state.source.announced = true ↔
      d.source.announced = true ∨ (d.perform δ op).result = .ok (.progress .ended) := by
  by_cases hr : ∃ room, op = .read room
  · obtain ⟨room, rfl⟩ := hr
    have hended : (d.perform δ (.read room)).result = .ok (.progress .ended) ↔ (d.read δ room).result = .ok .ended := by
      refine ⟨fun h => ?_, fun h => Outcome.result_map_of_ok h _⟩
      obtain ⟨_, hop, hres⟩ := exists_read_of_progress h
      cases hop
      exact hres
    rw [hended]
    exact announced_read δ d room
  · rw [(d.trace_perform δ op).announced_eq (d.ofSource_perform δ op fun room he => hr ⟨room, he⟩)]
    refine ⟨.inl, fun h => h.resolve_right fun he => ?_⟩
    obtain ⟨room, hop, -⟩ := exists_read_of_progress he
    exact hr ⟨room, hop⟩

theorem announced_finish (δ : Dialect) (d : Decoder τ) (ops : List Operation) :
    (d.finish δ ops).source.announced = true ↔
      d.source.announced = true ∨ ∃ r ∈ d.run δ ops, r.result = .ok (.progress .ended) := by
  induction ops generalizing d with
  | nil => simp
  | cons op ops ih => simp [ih, announced_perform, or_assoc]

/-! ### Settled decoders -/

/-- After a read that has told the end every read does, and nothing else happens. -/
private theorem read_again_of_ended {δ : Dialect} {d : Decoder τ} {room : Nat}
    (hr : (d.read δ room).result = .ok .ended) {between : List Operation} (hb : ∀ op ∈ between, ∀ l, op ≠ .next l)
    (room' : Nat) :
    ((d.read δ room).state.finish δ between).read δ room' =
      ⟨.ok .ended, (d.read δ room).state.finish δ between, []⟩ := by
  have hp : (d.read δ room).state.phase = .terminated := phase_advance_of_ended hr
  have hp' := (phase_finish_of_settled δ (settled_iff.2 (.inl hp)) hb).trans hp
  -- The source has taken note when the end was told first.
  have ha := ((d.read δ room).state.trace_run δ between).announced_of_announced ((d.announced_read δ room).2 (.inr hr))
  rw [read_of_terminated δ hp', Source.report_of_announced ha]

/-- After a failure every read gives the error of the failure, and only logs it. -/
private theorem read_again_of_failed {δ : Dialect} {d : Decoder τ} {m : PhaseMarker} {error : FramingError}
    (hp : d.phase = .failed m error) {between : List Operation} (hb : ∀ op ∈ between, ∀ l, op ≠ .next l)
    (room' : Nat) :
    (d.finish δ between).read δ room' =
      ⟨.error (.framing error), d.finish δ between, [.logged (.readFailed (.framing error))]⟩ :=
  read_of_failed δ ((phase_finish_of_settled δ (settled_iff.2 (.inr ⟨_, _, hp⟩)) hb).trans hp) room'

/-- The listener is told once that the stream is complete if a read of a decoder has told the end, and else never. -/
private theorem completions_run (δ : Dialect) {d : Decoder τ} (ha : d.source.announced = false) (ops : List Operation) :
    ((∃ r ∈ d.run δ ops, r.result = .ok (.progress .ended)) → completions (eventsOf (d.run δ ops)) = 1) ∧
      ((∀ r ∈ d.run δ ops, r.result ≠ .ok (.progress .ended)) → completions (eventsOf (d.run δ ops)) = 0) := by
  have hcount := (d.trace_run δ ops).completions_eq
  have hannounced := announced_finish δ d ops
  simp only [ha, Bool.toNat_false, Nat.zero_add, Bool.false_eq_true, false_or] at hcount hannounced
  rw [hcount]
  constructor
  · intro h
    rw [hannounced.2 h, Bool.toNat_true]
  · intro h
    have hnone : (d.finish δ ops).source.announced = false := by
      refine Bool.eq_false_iff.2 fun ht => ?_
      obtain ⟨r, hr, hended⟩ := hannounced.1 ht
      exact h r hr hended
    rw [hnone, Bool.toNat_false]

/-- A decoder is done with its body for good. Let a read tell the end, and let anything follow but the decoder of the
next body: every further read, into whatever room, tells the end, has no events and leaves the decoder and its source
as they are. After a framing error every further read gives this error, changes nothing and only logs it, unless the
error is what the transport has answered to a decoder that has not failed. Over the whole life of the source, with as
many decoders on it as there may be, its listener is told once that the stream is complete if any of them has told
the end, and else not at all. -/
theorem finality (δ : Dialect) (limits : Limits) (b : Buffer) (t : τ) (ops : List Operation) :
    let start := ofSource (.ofBuffer b t) limits
    (∀ (room room' : Nat) (between : List Operation), (∀ op ∈ between, ∀ l, op ≠ .next l) →
      let r := (start.finish δ ops).read δ room
      let e := r.state.finish δ between
      (r.result = .ok .ended → e.read δ room' = ⟨.ok .ended, e, []⟩) ∧
        ∀ error, r.result = .error (.framing error) →
          (∃ m, r.state.phase = .failed m error) ∧
              e.read δ room' = ⟨.error (.framing error), e, [.logged (.readFailed (.framing error))]⟩ ∨
            r.state.phase.isFailed = false ∧ lastReply r.events = some (.fault (.framing error))) ∧
      ((∃ r ∈ start.run δ ops, r.result = .ok (.progress .ended)) →
        completions (eventsOf (start.run δ ops)) = 1) ∧
      ((∀ r ∈ start.run δ ops, r.result ≠ .ok (.progress .ended)) →
        completions (eventsOf (start.run δ ops)) = 0) := by
  intro start
  refine ⟨?_, completions_run δ rfl ops⟩
  intro room room' between hb r e
  constructor
  · intro hr
    exact read_again_of_ended hr hb room'
  · intro error hr
    rcases read_of_framing hr with ⟨m, hp⟩ | h
    · exact .inl ⟨⟨m, hp⟩, read_again_of_failed hp hb room'⟩
    · exact .inr h

/-- The body of no chunks is read to its end. The bytes behind it are then taken past the decoder, which tells the end
again. The listener is told of the first end only. -/
theorem finality_of_empty_body :
    let t : Fragments := ⟨[.fragment 48 [13, 10, 13, 10, 97, 98]], false⟩
    let start := ofSource (.ofBuffer (.ofStorage (List.replicate 16 0)) t) {}
    let d := (start.finish .strict [.read 4, .take 8])
    d.read .strict 4 = ⟨.ok .ended, d, []⟩ ∧ completions (eventsOf (start.run .strict [.read 4, .take 8])) = 1 := by
  intro t start d
  obtain ⟨-, htold, -⟩ := finality .strict {} (.ofStorage (List.replicate 16 0)) t [.read 4, .take 8]
  obtain ⟨hread, -⟩ := (finality .strict {} (.ofStorage (List.replicate 16 0)) t []).1 4 4 [.take 8] (by simp)
  exact ⟨hread (by decide +kernel), htold (by decide +kernel)⟩

end Decoder

end ChunkedTransfer
