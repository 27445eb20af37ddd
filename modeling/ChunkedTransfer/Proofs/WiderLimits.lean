import Mathlib.Data.List.Forall2
import ChunkedTransfer.Proofs.Finality
import ChunkedTransfer.Proofs.Refusal

/-!
# Wider limits

A decoder with wider limits goes with one that has narrower limits until the latter fails at a limit. One line is then
absorbed in the same way (`Line.absorb_of_le`) and one size is accepted alike (`Limits.accept_of_le`), so that a step
and a read come to the same outcome, but for the limits that the decoder carries (`step_withLimits`, `read_withLimits`).

A decoder that has come to the end did not fail before, so that a body within narrower limits is decoded in the same way
within wider ones. Where the narrower decoder fails, the wider one may have more payload to deliver, but not another
(`delivered_prefix_withLimits`).
-/

namespace ChunkedTransfer

/-- The error is that a limit was exceeded. -/
def FramingError.isOfLimits : FramingError → Bool
  | lineTooLong _ _ | chunkTooLarge _ _ | bodyTooLarge _ _ => true
  | _ => false

namespace Limits

/-- Each of the limits is at most the other's. -/
structure Within (limits limits' : Limits) : Prop where
  chunkLine : limits.chunkLine ≤ limits'.chunkLine
  trailerLine : limits.trailerLine ≤ limits'.trailerLine
  chunk : limits.chunk ≤ limits'.chunk
  body : limits.body ≤ limits'.body

instance : LE Limits := ⟨Within⟩

private theorem le_refl (limits : Limits) : limits ≤ limits :=
  ⟨Nat.le_refl _, Nat.le_refl _, UInt64.le_refl _, UInt64.le_refl _⟩

/-- A size is accepted by wider limits if it is by narrower ones. -/
theorem accept_of_le {limits limits' : Limits} (h : limits ≤ limits') (decoded size : UInt64) :
    (∃ e : FramingError, e.isOfLimits = true ∧ limits.accept decoded size = .error e) ∨
      limits'.accept decoded size = limits.accept decoded size := by
  have hchunk := UInt64.le_iff_toNat_le.1 h.chunk
  have hbody := UInt64.le_iff_toNat_le.1 h.body
  cases ha : limits.accept decoded size with
  | ok n =>
    obtain ⟨hn, hc, hb⟩ := accept_eq_ok_iff.1 ha
    exact .inr (accept_eq_ok_iff.2 ⟨hn, by omega, by omega⟩)
  | error e =>
    refine .inl ⟨e, ?_, rfl⟩
    unfold accept at ha
    split at ha
    · obtain rfl := by simpa using ha
      rfl
    · split at ha
      · obtain rfl := by simpa using ha
        rfl
      · simp at ha

end Limits

/-! ### Lines -/

namespace Line

variable {limit limit' : Nat}

private theorem checked_of_le (h : limit ≤ limit') (l : Line) :
    (∃ e : FramingError, e.isOfLimits = true ∧ l.checked limit = .error e) ∨ l.checked limit' = l.checked limit := by
  unfold checked
  by_cases hl : limit < l.countedLength
  · rw [if_pos hl]
    exact .inl ⟨_, rfl, rfl⟩
  · rw [if_neg hl, if_neg (by omega)]
    exact .inr rfl

/-- What is absorbed is the same, unless it makes the line too long for the narrower limit. -/
theorem absorb_of_le (h : limit ≤ limit') (δ : Dialect) (l : Line) (b : Buffer) :
    (∃ e : FramingError, e.isOfLimits = true ∧ (l.absorb δ limit b).result = .error e) ∨
      l.absorb δ limit' b = l.absorb δ limit b := by
  by_cases hl : l.state = .complete
  · exact .inr (by simp [absorb, hl])
  rcases lineFeed_cases b.data with hb | ⟨front, rest, hf, hd⟩
  · rw [absorb_of_no_lineFeed hl hb, absorb_of_no_lineFeed hl hb]
    exact (checked_of_le h _).imp_right fun h => by rw [h]
  · rw [absorb_of_lineFeed hl hf hd, absorb_of_lineFeed hl hf hd]
    -- A line that may not end at its line feed is refused for that, whatever its length.
    cases (l.finish δ front).1 with
    | error e => exact .inr rfl
    | ok =>
      exact (checked_of_le h (l.finish δ front).2).imp_right fun h => by simp only [Except.bind, h]

end Line

namespace Decoder

variable {τ : Type}

/-- The decoder with other limits. -/
def withLimits (d : Decoder τ) (limits : Limits) : Decoder τ := { d with limits }

/-- The decoder has failed because a limit was exceeded. -/
def ExceedsLimits (d : Decoder τ) : Prop := ∃ m e, d.phase = .failed m e ∧ e.isOfLimits = true

/-! ### Steps -/

section

variable (d : Decoder τ) (limits : Limits)

private theorem stall_withLimits : (d.withLimits limits).stall = d.stall.mapState (·.withLimits limits) := by
  unfold stall withLimits
  simp only
  split <;> rfl

private theorem acceptTerminator_withLimits :
    (d.withLimits limits).acceptTerminator = d.acceptTerminator.mapState (·.withLimits limits) := by
  unfold acceptTerminator withLimits
  simp only
  split <;> rfl

private theorem acceptTrailerLine_withLimits (δ : Dialect) :
    (d.withLimits limits).acceptTrailerLine δ = (d.acceptTrailerLine δ).mapState (·.withLimits limits) := by
  unfold acceptTrailerLine withLimits
  simp only
  split <;> rfl

end

variable {limits : Limits}

private theorem acceptSizeLine_withLimits {d : Decoder τ} (h : d.limits ≤ limits) :
    d.acceptSizeLine.state.ExceedsLimits ∨
      (d.withLimits limits).acceptSizeLine = d.acceptSizeLine.mapState (·.withLimits limits) := by
  cases hs : SizeLine.size d.line.content with
  | error e => exact .inr (by simp [acceptSizeLine, withLimits, hs, Except.bind, fail, Outcome.mapState])
  | ok size =>
    rcases Limits.accept_of_le h d.decoded size with ⟨e, he, ha⟩ | ha
    · refine .inl ⟨d.phase.marker, e, ?_, he⟩
      simp [acceptSizeLine, hs, Except.bind, ha, fail, Phase.fail]
    · refine .inr ?_
      unfold acceptSizeLine withLimits
      simp only [hs, Except.bind, ha]
      split
      · rfl
      · split <;> rfl

variable [Transport τ]

private theorem handOver_withLimits (d : Decoder τ) (limits : Limits) (room : Nat) :
    (d.withLimits limits).handOver room = (d.handOver room).mapState (·.withLimits limits) := by
  unfold handOver
  by_cases hz : room = 0
  · rw [if_pos hz, if_pos hz]
    rfl
  · rw [if_neg hz, if_neg hz, show (d.withLimits limits).source = d.source from rfl,
      show (d.withLimits limits).remaining = d.remaining from rfl]
    simp only
    split
    · rfl
    · rw [Outcome.mapState_after, ← stall_withLimits]
      rfl
    · rfl

/-- A line is filled in the same way within a wider limit, unless it exceeds the narrower one. -/
private theorem withLine_withLimits {limit limit' : Nat} (hl : limit ≤ limit') (δ : Dialect)
    {accept : Decoder τ → StepOutcome τ} (d : Decoder τ)
    (ha : ∀ line source, (accept { d with line, source }).state.ExceedsLimits ∨
      accept (withLimits { d with line, source } limits) =
        (accept { d with line, source }).mapState (·.withLimits limits)) :
    (d.withLine δ limit accept).state.ExceedsLimits ∨
      (d.withLimits limits).withLine δ limit' accept = (d.withLine δ limit accept).mapState (·.withLimits limits) := by
  rcases Line.fill_eq_or_broken (Line.absorb_of_le hl δ) d.line d.source with ⟨e, he, hr⟩ | hfill
  · refine .inl ?_
    simp only [withLine, hr]
    exact ⟨_, e, rfl, he⟩
  · have hfill' : (d.withLimits limits).line.fill δ limit' (d.withLimits limits).source =
        d.line.fill δ limit d.source := hfill
    unfold withLine
    rw [hfill']
    simp only
    split
    · exact .inr rfl
    · refine .inr ?_
      rw [Outcome.mapState_after, ← stall_withLimits]
      rfl
    · exact .inr rfl
    · exact (ha _ _).imp_right fun ha => by
        rw [Outcome.mapState_after, ← ha]
        rfl

/-- A step comes to the same within wider limits, unless it exceeds the narrower ones. -/
theorem step_withLimits (δ : Dialect) {d : Decoder τ} (h : d.limits ≤ limits) (room : Nat) :
    (d.step δ room).state.ExceedsLimits ∨
      (d.withLimits limits).step δ room = (d.step δ room).mapState (·.withLimits limits) := by
  unfold step
  rw [show (d.withLimits limits).phase = d.phase from rfl]
  split
  · exact withLine_withLimits h.chunkLine δ d fun line source =>
      acceptSizeLine_withLimits (d := { d with line, source }) h
  · rw [show (d.withLimits limits).remaining = d.remaining from rfl]
    split
    · exact .inr (d.handOver_withLimits limits room)
    · exact withLine_withLimits h.chunkLine δ d fun line source =>
        .inr (acceptTerminator_withLimits { d with line, source } limits)
  · exact withLine_withLimits h.trailerLine δ d fun line source =>
      .inr (acceptTrailerLine_withLimits { d with line, source } limits δ)
  · exact .inr rfl
  · exact .inr rfl

/-! ### Reads and runs -/

private theorem advance_withLimits (δ : Dialect) (d : Decoder τ) (room : Nat) (h : d.limits ≤ limits) :
    (d.advance δ room).state.ExceedsLimits ∨
      (d.withLimits limits).advance δ room = (d.advance δ room).mapState (·.withLimits limits) := by
  fun_induction advance δ d room with
  | case1 d r f hr =>
    refine (step_withLimits δ h room).imp_right fun hs => ?_
    rw [advance_of_error (by rw [hs]; exact hr), hs]
    rfl
  | case2 d r p hr =>
    refine (step_withLimits δ h room).imp_right fun hs => ?_
    rw [advance_of_answer (by rw [hs]; exact hr), hs]
    rfl
  | case3 d r hr ih =>
    rcases step_withLimits δ h room with ⟨m, e, hp, -⟩ | hs
    · -- A step that goes on has not failed.
      have := unfailed_step δ d room none hr
      simp [hp, Phase.isFailed] at this
    · rw [advance_of_none (d := d.withLimits limits) (by rw [hs]; exact hr), hs, Outcome.mapState_after]
      exact (ih (by rwa [(d.counts_step δ room).limits_eq])).imp_right fun ih => by rw [← ih]; rfl

theorem read_withLimits (δ : Dialect) {d : Decoder τ} (h : d.limits ≤ limits) (room : Nat) :
    (d.read δ room).state.ExceedsLimits ∨
      (d.withLimits limits).read δ room = (d.read δ room).mapState (·.withLimits limits) := by
  refine (advance_withLimits δ d room h).imp id fun ha => ?_
  unfold read
  rw [ha]
  rfl

/-- An operation fails because a limit was exceeded. -/
def FailsAtLimit (r : Outcome (Decoder τ) Answer) : Prop := ∃ m e, FailsWith r m e ∧ e.isOfLimits = true

/-- An operation that does not replace the decoder comes to the same within wider limits, unless it fails at one of the
narrower limits. -/
private theorem perform_withLimits (δ : Dialect) {d : Decoder τ} (h : d.limits ≤ limits) {op : Operation}
    (ho : ∀ l, op ≠ .next l) :
    FailsAtLimit (d.perform δ op) ∨
      (d.withLimits limits).perform δ op = (d.perform δ op).mapState (·.withLimits limits) := by
  cases op with
  | read room =>
    rcases read_withLimits δ h room with ⟨m, e, hp, he⟩ | hr
    · exact .inl ⟨m, e, ⟨Outcome.result_map_of_error (result_read_of_failed hp) _, hp⟩, he⟩
    · refine .inr ?_
      rw [perform, hr]
      rfl
  | next limits => exact absurd rfl (ho limits)
  | _ => exact .inr rfl

private theorem limits_perform (δ : Dialect) (d : Decoder τ) {op : Operation} (ho : ∀ l, op ≠ .next l) :
    (d.perform δ op).state.limits = d.limits := by
  rcases d.perform_cases δ op with ⟨room, rfl⟩ | ⟨l, rfl⟩ | ⟨-, source, hs⟩
  · exact limits_advance δ d room
  · exact absurd rfl (ho l)
  · rw [hs]

/-- Two outcomes that differ in nothing but the limits of the decoder, which are wider in the second. -/
structure Widens (r r' : Outcome (Decoder τ) Answer) : Prop where
  limits_le : r.state.limits ≤ r'.state.limits
  result_eq : r'.result = r.result
  state_eq : r'.state = r.state.withLimits r'.state.limits
  events_eq : r'.events = r.events

/-- The next decoder has the limits that it is given, whatever those of the last one are. -/
private theorem widens_perform (δ : Dialect) {d : Decoder τ} (h : d.limits ≤ limits) (op : Operation) :
    FailsAtLimit (d.perform δ op) ∨ Widens (d.perform δ op) ((d.withLimits limits).perform δ op) := by
  by_cases hn : ∃ l, op = .next l
  · obtain ⟨l, rfl⟩ := hn
    exact .inr ⟨l.le_refl, rfl, rfl, rfl⟩
  · have ho : ∀ l, op ≠ .next l := fun l he => hn ⟨l, he⟩
    refine (perform_withLimits δ h ho).imp_right fun hs => ?_
    rw [hs]
    exact ⟨by rwa [d.limits_perform δ ho], rfl, rfl, rfl⟩

private theorem widens_run (δ : Dialect) {d : Decoder τ} (h : d.limits ≤ limits) {ops : List Operation}
    (hr : ∀ r ∈ d.run δ ops, ¬ FailsAtLimit r) :
    List.Forall₂ Widens (d.run δ ops) ((d.withLimits limits).run δ ops) := by
  induction ops generalizing d limits with
  | nil => exact .nil
  | cons op ops ih =>
    obtain ⟨hop, hops⟩ := List.forall_mem_cons.1 hr
    have hw := (widens_perform δ h op).resolve_left hop
    rw [run_cons, run_cons, hw.state_eq]
    exact .cons hw (ih hw.limits_le hops)

/-- Nothing is delivered after a failure, so that what the narrower decoder delivers is a front of what the wider one
does. -/
theorem delivered_prefix_withLimits (δ : Dialect) {d : Decoder τ} (h : d.limits ≤ limits) {ops : List Operation}
    (ho : ∀ op ∈ ops, ∀ l, op ≠ .next l) :
    delivered (d.run δ ops) <+: delivered ((d.withLimits limits).run δ ops) := by
  induction ops generalizing d with
  | nil => exact List.prefix_rfl
  | cons op ops ih =>
    obtain ⟨hop, hops⟩ := List.forall_mem_cons.1 ho
    rw [run_cons, delivered_cons]
    rcases perform_withLimits δ h hop with ⟨m, e, hf, -⟩ | hs
    · rw [Outcome.bytesOf_of_error hf.result_eq, delivered_of_settled (settled_iff.2 (.inr ⟨m, e, hf.phase_eq⟩)) hops]
      exact List.nil_prefix
    · rw [run_cons, delivered_cons, hs, Outcome.bytesOf_mapState]
      exact List.prefix_append_right_inj _ |>.2 (ih (by rwa [d.limits_perform δ hop]) hops)

/-- A decoder that tells the end fails at no limit, before or after. -/
private theorem not_failsAtLimit_of_ended {δ : Dialect} {d : Decoder τ} {ops : List Operation}
    (ho : ∀ op ∈ ops, ∀ l, op ≠ .next l) {r : Outcome (Decoder τ) Answer} (hr : r ∈ d.run δ ops)
    (h : r.result = .ok (.progress .ended)) : ∀ r' ∈ d.run δ ops, ¬ FailsAtLimit r' := by
  rintro r' hr' ⟨m, e, hf, -⟩
  obtain ⟨c, op, -, rfl⟩ := exists_of_mem_run hr
  have hp := phase_perform_of_ended h
  -- Both have settled the decoder, so they would have settled it in the same phase.
  have := phase_eq_of_mem_run ho hr hr' (settled_iff.2 (.inl hp)) (settled_iff.2 (.inr ⟨m, e, hf.phase_eq⟩))
  simp [hp, hf.phase_eq] at this

/-- Wider limits do not change what is within narrower ones. Let two decoders with limits of which the first are at most
the second take part in the same run on the same source. Operation by operation they give the same results, leave the
same decoder but for its limits, and do the same with the source, up to the first operation in which the narrower
decoder fails at a limit. If the decoder is not replaced and comes to the end within the narrower limits, then there is
no such operation and all of the run is the same. What is delivered within the narrower limits is in any case a front of
what is delivered within the wider ones. -/
theorem wider_limits (δ : Dialect) {limits limits' : Limits} (h : limits ≤ limits') (source : Source τ)
    (ops : List Operation) :
    let d := ofSource source limits
    let d' := ofSource source limits'
    (∀ n, (∀ r ∈ (d.run δ ops).take n, ¬ FailsAtLimit r) →
        List.Forall₂ Widens ((d.run δ ops).take n) ((d'.run δ ops).take n)) ∧
      ((∀ op ∈ ops, ∀ l, op ≠ .next l) →
        ((∃ r ∈ d.run δ ops, r.result = .ok (.progress .ended)) → List.Forall₂ Widens (d.run δ ops) (d'.run δ ops)) ∧
          delivered (d.run δ ops) <+: delivered (d'.run δ ops)) := by
  intro d d'
  have hd : d.limits ≤ limits' := h
  refine ⟨fun n hn => ?_, fun ho => ⟨?_, delivered_prefix_withLimits δ hd ho⟩⟩
  · rw [take_run] at hn ⊢
    rw [take_run]
    exact widens_run δ hd hn
  · rintro ⟨r, hr, hended⟩
    exact widens_run δ hd (not_failsAtLimit_of_ended ho hr hended)

/-- Two chunks of three bytes, where the narrower limit of the body admits five bytes in all. -/
theorem wider_limits_of_two_chunks :
    let limits : Limits := { chunk := 4, body := 5 }
    let t : Fragments :=
      ⟨[.fragment 51 [13, 10, 97, 98, 99, 13, 10, 51, 13, 10, 100, 101, 102, 13, 10, 48, 13, 10, 13, 10]], true⟩
    let source := Source.ofBuffer (.ofStorage (List.replicate 8 0)) t
    let ops := List.replicate 4 (.read 8)
    let d := ofSource source limits
    let d' := ofSource source {}
    List.Forall₂ Widens ((d.run .strict ops).take 1) ((d'.run .strict ops).take 1) ∧
      delivered (d.run .strict ops) <+: delivered (d'.run .strict ops) ∧
      delivered (d.run .strict ops) = [97, 98, 99] ∧ delivered (d'.run .strict ops) = [97, 98, 99, 100, 101, 102] := by
  intro limits t source ops d d'
  have h := wider_limits .strict (show limits ≤ {} from ⟨by decide, by decide, by decide, by decide⟩) source ops
  have hread : ∀ r ∈ (d.run .strict ops).take 1, r.result = .ok (.progress (.read [97, 98, 99])) := by decide +kernel
  refine ⟨h.1 1 fun r hr => ?_, (h.2 (by simp [ops])).2, by decide +kernel, by decide +kernel⟩
  rintro ⟨m, e, hf, -⟩
  have hresult := hf.result_eq
  rw [hread r hr] at hresult
  simp at hresult

end Decoder

end ChunkedTransfer
