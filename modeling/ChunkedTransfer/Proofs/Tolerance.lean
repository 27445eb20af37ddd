import Mathlib.Data.List.Forall2
import ChunkedTransfer.Proofs.Finality
import ChunkedTransfer.Proofs.Refusal

/-!
# Tolerance

The tolerant dialect goes with the strict one as long as no line ends with a bare line feed. One line is then absorbed
in the same way (`Line.absorb_tolerant`), and so lines, steps and reads come to the same (`alike_step`, `alike_read`).
What counts as text in the value of a trailer field is seen in the log and nowhere else (`Outcome.Alike`).

A decoder that was settled otherwise never comes to a bare line feed, so that a body which the strict dialect accepts,
or refuses for another reason, is accepted or refused alike in the tolerant one.
-/

namespace ChunkedTransfer

/-- The event without what it says about a trailer line. -/
def Event.blurred : Event → Event
  | logged (.trailerDiscarded _) | logged (.malformedTrailerDiscarded _) => logged (.trailerDiscarded [])
  | e => e

/-- Two outcomes that differ in nothing but what they log about trailer lines. -/
structure Outcome.Alike {σ α : Type} (r r' : Outcome σ α) : Prop where
  result_eq : r'.result = r.result
  state_eq : r'.state = r.state
  events_eq : r'.events.map Event.blurred = r.events.map Event.blurred

namespace Outcome.Alike

variable {σ α β : Type} {r r' : Outcome σ α}

private theorem refl (r : Outcome σ α) : Alike r r := ⟨rfl, rfl, rfl⟩

private theorem after (h : Alike r r') {es es' : List Event} (he : es'.map Event.blurred = es.map Event.blurred) :
    Alike (r.after es) (r'.after es') :=
  ⟨h.result_eq, h.state_eq, by simp [he, h.events_eq]⟩

private theorem map (h : Alike r r') (f : α → β) : Alike (r.map f) (r'.map f) :=
  ⟨by simp [Outcome.map, h.result_eq], h.state_eq, h.events_eq⟩

end Outcome.Alike

/-- The end of a line in the strict dialect is one in the tolerant dialect. -/
private theorem Dialect.content?_tolerant {raw c : Bytes} (h : strict.content? raw = some c) :
    tolerant.content? raw = some c := by
  unfold content? at h ⊢
  split at h
  · rename_i hr
    rwa [if_pos hr]
  · simp [allowsBareLineFeed] at h

/-! ### Lines -/

namespace Line

/-- What is absorbed is the same, unless a line has ended with a bare line feed. -/
theorem absorb_tolerant (limit : Nat) (l : Line) (b : Buffer) :
    (l.absorb .strict limit b).result = .error .bareLineFeed ∨
      l.absorb .tolerant limit b = l.absorb .strict limit b := by
  by_cases hl : l.state = .complete
  · exact .inr (by simp [absorb, hl])
  rcases lineFeed_cases b.data with hb | ⟨front, rest, hf, hd⟩
  · exact .inr (by rw [absorb_of_no_lineFeed hl hb, absorb_of_no_lineFeed hl hb])
  · rw [absorb_of_lineFeed hl hf hd, absorb_of_lineFeed hl hf hd, finish_eq, finish_eq]
    cases hc : Dialect.strict.content? (l.content ++ front) with
    | none => exact .inl rfl
    | some c =>
      rw [Dialect.content?_tolerant hc]
      exact .inr rfl

variable {τ : Type} [Transport τ]

private theorem fill_tolerant (limit : Nat) (l : Line) (s : Source τ) :
    (l.fill .strict limit s).result = .ok (.broken .bareLineFeed) ∨
      l.fill .tolerant limit s = l.fill .strict limit s := by
  have h := fill_eq_or_broken (P := (· = .bareLineFeed))
    (fun l b => (absorb_tolerant limit l b).imp_left fun h => ⟨_, rfl, h⟩) l s
  exact h.imp_left fun ⟨_, he, hr⟩ => he ▸ hr

end Line

/-! ### Steps -/

namespace Decoder

variable {τ : Type}

/-- The decoder has failed at a line that ends with a bare line feed. -/
def MetBareLineFeed (d : Decoder τ) : Prop := ∃ m, d.phase = .failed m .bareLineFeed

private theorem blurred_trailerRecord (δ δ' : Dialect) (line : Bytes) :
    (Event.logged (trailerRecord δ line)).blurred = (Event.logged (trailerRecord δ' line)).blurred := by
  unfold trailerRecord
  split <;> split <;> rfl

private theorem alike_acceptTrailerLine (δ δ' : Dialect) (d : Decoder τ) :
    Outcome.Alike (d.acceptTrailerLine δ) (d.acceptTrailerLine δ') := by
  unfold acceptTrailerLine
  split
  · exact .refl _
  · exact ⟨rfl, rfl, by simp [blurred_trailerRecord δ' δ]⟩

variable [Transport τ]

private theorem alike_withLine (limit : Nat) {accept accept' : Decoder τ → StepOutcome τ} (d : Decoder τ)
    (ha : ∀ e, Outcome.Alike (accept e) (accept' e)) :
    (d.withLine .strict limit accept).state.MetBareLineFeed ∨
      Outcome.Alike (d.withLine .strict limit accept) (d.withLine .tolerant limit accept') := by
  rcases Line.fill_tolerant limit d.line d.source with h | h
  · refine .inl ?_
    simp only [withLine, h]
    exact ⟨_, rfl⟩
  · refine .inr ?_
    unfold withLine
    rw [h]
    simp only
    split
    · exact .refl _
    · exact .refl _
    · exact .refl _
    · exact (ha _).after rfl

/-- A step comes to the same, unless it meets a bare line feed. -/
theorem alike_step (d : Decoder τ) (room : Nat) :
    (d.step .strict room).state.MetBareLineFeed ∨ Outcome.Alike (d.step .strict room) (d.step .tolerant room) := by
  unfold step
  split
  · exact alike_withLine _ d fun _ => .refl _
  · split
    · exact .inr (.refl _)
    · exact alike_withLine _ d fun _ => .refl _
  · exact alike_withLine _ d (alike_acceptTrailerLine .strict .tolerant)
  · exact .inr (.refl _)
  · exact .inr (.refl _)

/-! ### Reads and runs -/

private theorem alike_advance (d : Decoder τ) (room : Nat) :
    (d.advance .strict room).state.MetBareLineFeed ∨
      Outcome.Alike (d.advance .strict room) (d.advance .tolerant room) := by
  fun_induction advance .strict d room with
  | case1 d r f hr =>
    refine (alike_step d room).imp_right fun h => ?_
    rw [advance_of_error (h.result_eq.trans hr)]
    exact ⟨rfl, h.state_eq, h.events_eq⟩
  | case2 d r p hr =>
    refine (alike_step d room).imp_right fun h => ?_
    rw [advance_of_answer (h.result_eq.trans hr)]
    exact ⟨rfl, h.state_eq, h.events_eq⟩
  | case3 d r hr ih =>
    rcases alike_step d room with ⟨m, hp⟩ | h
    · -- A step that goes on has not failed.
      have := unfailed_step .strict d room none hr
      simp [hp, Phase.isFailed] at this
    · rw [advance_of_none (h.result_eq.trans hr), h.state_eq]
      exact ih.imp_right fun ih => ih.after h.events_eq

theorem alike_read (d : Decoder τ) (room : Nat) :
    (d.read .strict room).state.MetBareLineFeed ∨ Outcome.Alike (d.read .strict room) (d.read .tolerant room) := by
  refine (alike_advance d room).imp id fun h => ?_
  unfold read
  simp only
  rw [h.result_eq, h.state_eq]
  exact ⟨rfl, rfl, by simp [h.events_eq]⟩

/-- An operation comes to the same in the two dialects, unless it fails at a bare line feed or one was met before. -/
private theorem alike_perform {d : Decoder τ} (hd : ¬ d.MetBareLineFeed) (op : Operation) :
    (∃ m, FailsWith (d.perform .strict op) m .bareLineFeed) ∨
      Outcome.Alike (d.perform .strict op) (d.perform .tolerant op) ∧
        ¬ (d.perform .strict op).state.MetBareLineFeed := by
  cases op with
  | read room =>
    by_cases hb : (d.read .strict room).state.MetBareLineFeed
    · obtain ⟨m, hp⟩ := hb
      exact .inl ⟨m, Outcome.result_map_of_error (result_read_of_failed hp) _, hp⟩
    · exact .inr ⟨((alike_read d room).resolve_left hb).map _, hb⟩
  | next limits =>
    refine .inr ⟨.refl _, ?_⟩
    rintro ⟨m, hp⟩
    simp [perform, next, ofSource] at hp
  | _ => exact .inr ⟨.refl _, hd⟩

private theorem alike_run {d : Decoder τ} (hd : ¬ d.MetBareLineFeed) {ops : List Operation}
    (h : ∀ r ∈ d.run .strict ops, ∀ m, ¬ FailsWith r m .bareLineFeed) :
    List.Forall₂ Outcome.Alike (d.run .strict ops) (d.run .tolerant ops) := by
  induction ops generalizing d with
  | nil => exact .nil
  | cons op ops ih =>
    obtain ⟨hop, hops⟩ := List.forall_mem_cons.1 h
    rcases alike_perform hd op with ⟨m, hf⟩ | ⟨ha, hd'⟩
    · exact absurd hf (hop m)
    · rw [run_cons, run_cons, ha.state_eq]
      exact .cons ha (ih hd' hops)

/-- A decoder that tells the end, or fails for another reason, fails at no bare line feed, before or after. -/
private theorem not_failsWith_bareLineFeed {δ : Dialect} {d : Decoder τ} {ops : List Operation}
    (ho : ∀ op ∈ ops, ∀ l, op ≠ .next l) {r : Outcome (Decoder τ) Answer} (hr : r ∈ d.run δ ops)
    (h : r.result = .ok (.progress .ended) ∨ ∃ m e, FailsWith r m e ∧ e ≠ .bareLineFeed) :
    ∀ r' ∈ d.run δ ops, ∀ m, ¬ FailsWith r' m .bareLineFeed := by
  intro r' hr' m hf
  have hs' : r'.state.Settled := settled_iff.2 (.inr ⟨_, _, hf.phase_eq⟩)
  -- Both outcomes have settled the decoder, so they have settled it in the same phase.
  rcases h with hended | ⟨m', e, hf', hne⟩
  · obtain ⟨c, op, -, rfl⟩ := exists_of_mem_run hr
    have hp := phase_perform_of_ended hended
    have := phase_eq_of_mem_run ho hr hr' (settled_iff.2 (.inl hp)) hs'
    simp [hp, hf.phase_eq] at this
  · have := phase_eq_of_mem_run ho hr hr' (settled_iff.2 (.inr ⟨_, _, hf'.phase_eq⟩)) hs'
    rw [hf'.phase_eq, hf.phase_eq] at this
    simp only [Phase.failed.injEq] at this
    exact hne this.2

/-- The tolerant dialect extends the strict one. Run on the same source, step by step the two give the same results,
leave the same decoder and the same source, and do the same with the transport, up to the first step in which the strict
decoder fails at a bare line feed; only the log may tell them apart, by what it says about trailer lines. If a decoder
that is not replaced tells the end in the strict dialect, or fails for another reason, then there is no such step, and
all of the run is the same. -/
theorem tolerant_extends_strict (source : Source τ) (limits : Limits) (ops : List Operation) :
    let d := ofSource source limits
    ((∀ r ∈ d.run .strict ops, ∀ m, ¬ FailsWith r m .bareLineFeed) →
        List.Forall₂ Outcome.Alike (d.run .strict ops) (d.run .tolerant ops)) ∧
      ((∀ op ∈ ops, ∀ l, op ≠ .next l) →
        (∃ r ∈ d.run .strict ops, r.result = .ok (.progress .ended) ∨ ∃ m e, FailsWith r m e ∧ e ≠ .bareLineFeed) →
        List.Forall₂ Outcome.Alike (d.run .strict ops) (d.run .tolerant ops)) := by
  intro d
  have hd : ¬ d.MetBareLineFeed := by
    rintro ⟨m, hp⟩
    simp [d, ofSource] at hp
  constructor
  · exact alike_run hd
  · rintro ho ⟨r, hr, h⟩
    exact alike_run hd (not_failsWith_bareLineFeed ho hr h)

/-- A body with a trailer field whose value is Latin-1 text, which is logged in two ways. -/
theorem tolerant_extends_strict_of_latin_trailer :
    let t : Fragments := ⟨[.fragment 49 [13, 10, 97, 13, 10, 48, 13, 10], .fragment 88 [58, 233, 13, 10, 13, 10]], true⟩
    let d := ofSource (.ofBuffer (.ofStorage (List.replicate 16 0)) t) {}
    List.Forall₂ Outcome.Alike (d.run .strict [.read 4, .read 4]) (d.run .tolerant [.read 4, .read 4]) ∧
      d.run .strict [.read 4, .read 4] ≠ d.run .tolerant [.read 4, .read 4] := by
  intro t d
  have h := tolerant_extends_strict (.ofBuffer (.ofStorage (List.replicate 16 0)) t) {} [.read 4, .read 4]
  constructor
  · refine h.2 (by simp) ?_
    obtain ⟨r, hr, hended⟩ : ∃ r ∈ d.run .strict [.read 4, .read 4], r.result = .ok (.progress .ended) := by
      decide +kernel
    exact ⟨r, hr, .inl hended⟩
  · intro he
    have hevents := congrArg eventsOf he
    revert hevents
    decide +kernel

end Decoder

end ChunkedTransfer
