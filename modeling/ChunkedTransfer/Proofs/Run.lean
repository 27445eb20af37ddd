import ChunkedTransfer.Decoder.Run
import ChunkedTransfer.Proofs.Framing

/-!
# Traces of a decoder

A step, a read and a whole run of a decoder are traces of the source below it (`trace_step`, `trace_read`,
`trace_run`), so that an invariant of the small actions on a source holds in every run. The bytes that an operation
gives to its caller are the last that it takes out of the source (`consumed_perform`).
-/

namespace ChunkedTransfer

/-- The payload in what a read brings about. -/
def Progress.payload : Progress Bytes → Bytes
  | read bs => bs
  | pending => []
  | ended => []

namespace Answer

/-- The bytes that an operation gives to its caller. -/
def bytes : Answer → Bytes
  | progress p => p.payload
  | taken bs => bs
  | refilled _ => []
  | available _ => []
  | done => []

private theorem payload_progress (p : Progress Bytes) : (progress p).payload = p.payload := by
  cases p <;> rfl

end Answer

/-- The bytes in a result. A fault has none. -/
def Outcome.given {σ : Type} (r : Outcome σ Answer) : Bytes :=
  match r.result with
  | .ok a => a.bytes
  | .error _ => []

private theorem Outcome.given_eq {σ : Type} (r : Outcome σ Answer) : r.given = r.bytesOf Answer.bytes := by
  unfold given bytesOf
  cases r.result <;> rfl

/-- The events of all operations of a run, in their order. -/
def eventsOf {σ α : Type} (run : List (Outcome σ α)) : List Event := run.flatMap Outcome.events

@[simp] theorem eventsOf_nil {σ α : Type} : eventsOf ([] : List (Outcome σ α)) = [] := rfl

@[simp] theorem eventsOf_cons {σ α : Type} (r : Outcome σ α) (rs : List (Outcome σ α)) :
    eventsOf (r :: rs) = r.events ++ eventsOf rs := rfl

@[simp] theorem eventsOf_append {σ α : Type} (rs rs' : List (Outcome σ α)) :
    eventsOf (rs ++ rs') = eventsOf rs ++ eventsOf rs' := List.flatMap_append

@[simp] theorem delivered_nil {σ : Type} : delivered ([] : List (Outcome σ Answer)) = [] := rfl

@[simp] theorem delivered_cons {σ : Type} (r : Outcome σ Answer) (rs : List (Outcome σ Answer)) :
    delivered (r :: rs) = r.bytesOf Answer.payload ++ delivered rs := by
  unfold Outcome.bytesOf delivered
  rw [List.flatMap_cons]
  cases r.result <;> rfl

namespace Decoder

variable {τ : Type}

private theorem given_onSource (d : Decoder τ) {α : Type} (answer : α → Answer) (r : Outcome (Source τ) α) :
    (d.onSource answer r).given = r.bytesOf (Answer.bytes ∘ answer) := by
  rw [Outcome.given_eq, onSource, Outcome.bytesOf_mapState, Outcome.bytesOf_map]

variable [Transport τ]

private theorem trace_fail {α : Type} (d : Decoder τ) (e : FramingError) :
    d.source.Trace (d.fail e : Outcome (Decoder τ) α).events (d.fail e : Outcome (Decoder τ) α).state.source :=
  .log _ _

private theorem trace_stall (d : Decoder τ) : d.source.Trace d.stall.events d.stall.state.source := by
  unfold stall
  split
  · exact d.trace_fail _
  · exact .refl _

private theorem trace_acceptSizeLine (d : Decoder τ) :
    d.source.Trace d.acceptSizeLine.events d.acceptSizeLine.state.source := by
  unfold acceptSizeLine
  split
  · exact d.trace_fail _
  · split <;> exact .log _ _

private theorem trace_acceptTerminator (d : Decoder τ) :
    d.source.Trace d.acceptTerminator.events d.acceptTerminator.state.source := by
  unfold acceptTerminator
  split
  · exact .refl _
  · exact d.trace_fail _

private theorem trace_acceptTrailerLine (δ : Dialect) (d : Decoder τ) :
    d.source.Trace (d.acceptTrailerLine δ).events (d.acceptTrailerLine δ).state.source := by
  unfold acceptTrailerLine
  split <;> exact .log _ _

private theorem trace_withLine (δ : Dialect) (limit : Nat) {accept : Decoder τ → StepOutcome τ} (d : Decoder τ)
    (ha : ∀ e : Decoder τ, e.source.Trace (accept e).events (accept e).state.source) :
    d.source.Trace (d.withLine δ limit accept).events (d.withLine δ limit accept).state.source := by
  have h := Line.trace_fill δ limit d.line d.source
  let d' : Decoder τ :=
    { d with line := (d.line.fill δ limit d.source).state.1, source := (d.line.fill δ limit d.source).state.2 }
  unfold withLine
  simp only
  split
  · exact h
  · exact h.trans d'.trace_stall
  · rename_i e _
    exact h.trans (d'.trace_fail e)
  · exact h.trans (ha d')

private theorem trace_handOver (d : Decoder τ) (room : Nat) :
    d.source.Trace (d.handOver room).events (d.handOver room).state.source := by
  have h := d.source.trace_read (min room d.remaining.toNat)
  let d' : Decoder τ := { d with source := (d.source.read (min room d.remaining.toNat)).state }
  unfold handOver
  split
  · exact .refl _
  · simp only
    split
    · exact h
    · exact h.trans d'.trace_stall
    · exact h

theorem trace_step (δ : Dialect) (d : Decoder τ) (room : Nat) :
    d.source.Trace (d.step δ room).events (d.step δ room).state.source := by
  unfold step
  split
  · exact trace_withLine δ _ d trace_acceptSizeLine
  · split
    · exact d.trace_handOver room
    · exact trace_withLine δ _ d trace_acceptTerminator
  · exact trace_withLine δ _ d (trace_acceptTrailerLine δ)
  · exact .refl _
  · exact .refl _

private theorem trace_advance (δ : Dialect) (d : Decoder τ) (room : Nat) :
    d.source.Trace (d.advance δ room).events (d.advance δ room).state.source := by
  fun_induction advance δ d room with
  | case1 d r f hr => exact d.trace_step δ room
  | case2 d r p hr => exact d.trace_step δ room
  | case3 d r hr ih => exact (d.trace_step δ room).trans ih

theorem trace_read (δ : Dialect) (d : Decoder τ) (room : Nat) :
    d.source.Trace (d.read δ room).events (d.read δ room).state.source :=
  (d.trace_advance δ room).trans (.report _ _)

theorem trace_perform (δ : Dialect) (d : Decoder τ) (op : Operation) :
    d.source.Trace (d.perform δ op).events (d.perform δ op).state.source := by
  cases op with
  | read room => exact d.trace_read δ room
  | refill => exact d.source.trace_refill
  | take room => exact d.source.trace_read room
  | replenish => exact d.source.trace_replenish
  | noteUsedUp => exact .noteUsedUp _
  | markDraining => exact .markDraining _
  | next limits => exact .refl _

/-- The outcomes of a run are those of operations in it. -/
theorem exists_of_mem_run {δ : Dialect} {d : Decoder τ} {ops : List Operation} {r : Outcome (Decoder τ) Answer}
    (h : r ∈ d.run δ ops) : ∃ (e : Decoder τ) (op : Operation), op ∈ ops ∧ r = e.perform δ op := by
  induction ops generalizing d with
  | nil => simp at h
  | cons op ops ih =>
    rcases List.mem_cons.1 h with rfl | h
    · exact ⟨d, op, List.mem_cons_self .., rfl⟩
    · obtain ⟨e, op', hop, hr⟩ := ih h
      exact ⟨e, op', List.mem_cons_of_mem _ hop, hr⟩

theorem take_run (δ : Dialect) (d : Decoder τ) (ops : List Operation) (n : Nat) :
    (d.run δ ops).take n = d.run δ (ops.take n) := by
  induction ops generalizing d n with
  | nil => simp
  | cons op ops ih =>
    cases n with
    | zero => rfl
    | succ n => rw [run_cons, List.take_succ_cons, List.take_succ_cons, run_cons, ih]

/-- A run is a trace of the source, also where one decoder follows another. -/
theorem trace_run (δ : Dialect) (d : Decoder τ) (ops : List Operation) :
    d.source.Trace (eventsOf (d.run δ ops)) (d.finish δ ops).source := by
  induction ops generalizing d with
  | nil => exact .refl _
  | cons op ops ih => exact (d.trace_perform δ op).trans (ih _)

/-- The payload of a step is what the step takes out of the source. -/
theorem consumed_step_of_read {δ : Dialect} {d : Decoder τ} {room : Nat} {bs : Bytes}
    (h : (d.step δ room).result = .ok (some (.read bs))) : consumed (d.step δ room).events = bs := by
  obtain ⟨-, -, hs⟩ := step_of_read h
  rw [hs] at h ⊢
  rcases handOver_of_read h with ⟨-, rfl, ho⟩ | ⟨-, hb, ho⟩
  · simp [ho]
  · rw [ho]
    simp only
    rw [Source.consumed_read, Outcome.bytesOf_of_ok hb, id]

/-- A read takes lines first and payload last. -/
theorem consumed_advance (δ : Dialect) (d : Decoder τ) (room : Nat) :
    ∃ framed, consumed (d.advance δ room).events = framed ++ (d.advance δ room).bytesOf Progress.payload := by
  fun_induction advance δ d room with
  | case1 d r f hr => exact ⟨_, (List.append_nil _).symm⟩
  | case2 d r p hr =>
    cases p with
    | read bs => exact ⟨[], consumed_step_of_read hr⟩
    | pending => exact ⟨_, (List.append_nil _).symm⟩
    | ended => exact ⟨_, (List.append_nil _).symm⟩
  | case3 d r hr ih =>
    obtain ⟨framed, hf⟩ := ih
    refine ⟨consumed r.events ++ framed, ?_⟩
    rw [Outcome.events_after, consumed_append, hf, List.append_assoc]
    rfl

/-- What an operation gives to its caller is the last that it takes, and all of it unless it is a read of the
decoder. -/
theorem consumed_perform (δ : Dialect) (d : Decoder τ) (op : Operation) :
    ∃ framed, consumed (d.perform δ op).events = framed ++ (d.perform δ op).given ∧
      ((∀ room, op ≠ .read room) → framed = []) := by
  -- Only a read of the decoder frames lines in front of what it gives.
  by_cases hop : ∃ room, op = .read room
  · obtain ⟨room, rfl⟩ := hop
    obtain ⟨framed, hf⟩ := d.consumed_advance δ room
    have hgiven : (d.perform δ (.read room)).given = (d.advance δ room).bytesOf Progress.payload := by
      rw [Outcome.given_eq, perform, Outcome.bytesOf_map]
      rfl
    refine ⟨framed, ?_, fun h => absurd rfl (h room)⟩
    rw [hgiven, ← hf]
    simp [perform, read]
  · refine ⟨[], ?_, fun _ => rfl⟩
    rw [List.nil_append]
    cases op with
    | read room => exact absurd ⟨room, rfl⟩ hop
    | refill =>
      show consumed d.source.refill.events = (d.onSource .refilled d.source.refill).given
      rw [Source.consumed_refill, given_onSource]
      exact (Outcome.bytesOf_eq_nil (fun _ => rfl) _).symm
    | take room =>
      show consumed (d.source.read room).events = (d.onSource .taken (d.source.read room)).given
      rw [Source.consumed_read, given_onSource]
      rfl
    | replenish =>
      show consumed d.source.replenish.events = (d.onSource .available d.source.replenish).given
      rw [Source.consumed_replenish, given_onSource]
      exact (Outcome.bytesOf_eq_nil (fun _ => rfl) _).symm
    | noteUsedUp => rfl
    | markDraining => rfl
    | next limits => rfl

/-- The payload of a read is what its last step hands over. -/
theorem payload_perform_read (δ : Dialect) (d : Decoder τ) (room : Nat) :
    (d.perform δ (.read room)).bytesOf Answer.payload = (d.advance δ room).bytesOf Progress.payload := by
  rw [perform, Outcome.bytesOf_map, show Answer.payload ∘ Answer.progress = Progress.payload from
    funext Answer.payload_progress]
  rfl

/-- An operation that neither reads from the decoder nor replaces it hands over nothing and only works on the source. -/
theorem perform_on_source (δ : Dialect) (d : Decoder τ) (op : Operation) (hr : ∀ room, op ≠ .read room)
    (hn : ∀ limits, op ≠ .next limits) :
    (d.perform δ op).bytesOf Answer.payload = [] ∧ ∃ source, (d.perform δ op).state = { d with source } := by
  have hpayload {α : Type} {answer : α → Answer} (ha : ∀ a, (answer a).payload = []) (r : Outcome (Source τ) α) :
      (d.onSource answer r).bytesOf Answer.payload = [] := by
    rw [onSource, Outcome.bytesOf_mapState, Outcome.bytesOf_map]
    exact Outcome.bytesOf_eq_nil ha _
  cases op with
  | read room => exact absurd rfl (hr room)
  | refill => exact ⟨hpayload (fun _ => rfl) _, _, rfl⟩
  | take room => exact ⟨hpayload (fun _ => rfl) _, _, rfl⟩
  | replenish => exact ⟨hpayload (fun _ => rfl) _, _, rfl⟩
  | noteUsedUp => exact ⟨rfl, _, rfl⟩
  | markDraining => exact ⟨rfl, _, rfl⟩
  | next limits => exact absurd rfl (hn limits)

/-- An operation reads from the decoder, replaces it, or hands over nothing and only works on the source. -/
theorem perform_cases (δ : Dialect) (d : Decoder τ) (op : Operation) :
    (∃ room, op = .read room) ∨ (∃ limits, op = .next limits) ∨
      (d.perform δ op).bytesOf Answer.payload = [] ∧ ∃ source, (d.perform δ op).state = { d with source } := by
  by_cases hr : ∃ room, op = .read room
  · exact .inl hr
  by_cases hn : ∃ limits, op = .next limits
  · exact .inr (.inl hn)
  · exact .inr (.inr (d.perform_on_source δ op (fun room he => hr ⟨room, he⟩) fun limits he => hn ⟨limits, he⟩))

end Decoder

end ChunkedTransfer
