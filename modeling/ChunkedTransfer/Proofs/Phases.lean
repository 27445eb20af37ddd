import ChunkedTransfer.Proofs.Agreement
import ChunkedTransfer.Proofs.BrokenLine

/-!
# Phases of a decoder

What the other parts of a decoder are in each of its phases (`Decoder.Coherent`): payload of a chunk remains in its
data only, a line is under way only where one is read, trailers are counted after the last chunk, and a decoder that
has failed did so with an error that can be met in its phase (`FramingError.Fits`). This is kept by every step, so it
holds after every operation of a run, whatever the transport does (`phase_invariant`).
-/

namespace ChunkedTransfer

theorem PhaseMarker.IsReading.isFailed_eq {p : Phase} (h : p.marker.IsReading) : p.isFailed = false := by
  cases p with
  | failed m e => simp [Phase.marker, PhaseMarker.IsReading] at h
  | _ => rfl

/-- The error can be met in the phase, with so many bytes of the chunk left. -/
structure FramingError.Fits (e : FramingError) (m : PhaseMarker) (remaining : UInt64) : Prop where
  isReading : m.IsReading
  of_sizeLine : e.isOfSizeLine = true → m = .size
  of_terminator : e = .missingChunkTerminator → m = .data
  of_truncated : ∀ p, e = .truncated p → p = m
  /-- As long as payload is to come, nothing but the end of the transport can go wrong. -/
  of_remaining : 0 < remaining → e = .truncated m

namespace FramingError

private theorem fits_size {e : FramingError} (h : e.isOfSizeLine = true) : e.Fits .size 0 := by
  cases e <;> simp only [isOfSizeLine, Bool.false_eq_true] at h <;>
    exact ⟨.inl rfl, fun _ => rfl, by simp, by simp, by simp⟩

private theorem fits_missingChunkTerminator : missingChunkTerminator.Fits .data 0 :=
  ⟨.inr (.inl rfl), by simp [isOfSizeLine], fun _ => rfl, by simp, by simp⟩

private theorem fits_truncated {m : PhaseMarker} (h : m.IsReading) (remaining : UInt64) :
    (truncated m).Fits m remaining :=
  ⟨h, by simp [isOfSizeLine], by simp, by simp, fun _ => rfl⟩

private theorem Fits.remaining_eq {e : FramingError} {m : PhaseMarker} {remaining : UInt64} (h : e.Fits m remaining)
    (he : e = .missingChunkTerminator) : remaining = 0 := by
  refine Classical.byContradiction fun hz => ?_
  have := h.of_remaining (UInt64.pos_iff_ne_zero.2 hz)
  simp [he] at this

end FramingError

/-- What breaks a line can do so in any phase. -/
private theorem Line.Breaks.fits {δ : Dialect} {limit : Nat} {content bs : Bytes} {e : FramingError}
    (h : Breaks δ limit content bs e) {m : PhaseMarker} (hm : m.IsReading) : e.Fits m 0 := by
  rcases h.error_cases with rfl | ⟨n, rfl⟩
  · exact ⟨hm, by simp [FramingError.isOfSizeLine], by simp, by simp, by simp⟩
  · exact ⟨hm, by simp [FramingError.isOfSizeLine], by simp, by simp, by simp⟩

namespace Decoder

variable {τ α : Type}

/-- What the parts of a decoder are in its phase. -/
inductive Coherent (d : Decoder τ) : Prop
  | size (hp : d.phase = .size) (hr : d.remaining = 0) (hl : d.line.IsOpen) (ht : d.trailers = 0)
  /-- In front of payload no line is begun. -/
  | payload (hp : d.phase = .data) (hl : d.line = {}) (ht : d.trailers = 0)
  | terminator (hp : d.phase = .data) (hr : d.remaining = 0) (hl : d.line.IsOpen) (ht : d.trailers = 0)
  | trailers (hp : d.phase = .trailers) (hr : d.remaining = 0) (hl : d.line.IsOpen)
  | terminated (hp : d.phase = .terminated) (hr : d.remaining = 0) (hl : d.line = {})
  | failed {m : PhaseMarker} {e : FramingError} (hp : d.phase = .failed m e) (he : e.Fits m d.remaining)
      (ht : m ≠ .trailers → d.trailers = 0)

theorem coherent_ofSource (source : Source τ) (limits : Limits) : (ofSource source limits).Coherent :=
  .size rfl rfl Line.isOpen_empty rfl

theorem Coherent.withSource {d : Decoder τ} (h : d.Coherent) (source : Source τ) : Coherent { d with source } := by
  cases h with
  | size hp hr hl ht => exact .size hp hr hl ht
  | payload hp hl ht => exact .payload hp hl ht
  | terminator hp hr hl ht => exact .terminator hp hr hl ht
  | trailers hp hr hl => exact .trailers hp hr hl
  | terminated hp hr hl => exact .terminated hp hr hl
  | failed hp he ht => exact .failed hp he ht

theorem Coherent.remaining_of_size {d : Decoder τ} (h : d.Coherent) (hp : d.phase = .size) : d.remaining = 0 := by
  cases h with
  | size _ hr => exact hr
  | payload hp' => simp [hp] at hp'
  | terminator _ hr => exact hr
  | trailers _ hr => exact hr
  | terminated _ hr => exact hr
  | failed hp' => simp [hp] at hp'

private theorem Coherent.remaining_of_trailers {d : Decoder τ} (h : d.Coherent) (hp : d.phase = .trailers) :
    d.remaining = 0 := by
  cases h with
  | size _ hr => exact hr
  | payload hp' => simp [hp] at hp'
  | terminator _ hr => exact hr
  | trailers _ hr => exact hr
  | terminated _ hr => exact hr
  | failed hp' => simp [hp] at hp'

theorem Coherent.line_of_terminated {d : Decoder τ} (h : d.Coherent) (hp : d.phase = .terminated) : d.line = {} := by
  cases h with
  | terminated _ _ hl => exact hl
  | size hp' => simp [hp] at hp'
  | payload hp' => simp [hp] at hp'
  | terminator hp' => simp [hp] at hp'
  | trailers hp' => simp [hp] at hp'
  | failed hp' => simp [hp] at hp'

/-- No trailers are counted before the last chunk. -/
private theorem Coherent.trailers_eq {d : Decoder τ} (h : d.Coherent) (hm : d.phase.marker.IsReading)
    (hp : d.phase.marker ≠ .trailers) : d.trailers = 0 := by
  cases h with
  | size _ _ _ ht => exact ht
  | payload _ _ ht => exact ht
  | terminator _ _ _ ht => exact ht
  | trailers hp' => simp [hp', Phase.marker] at hp
  | terminated hp' => simp [hp', Phase.marker, PhaseMarker.IsReading] at hm
  | failed hp' => simp [hp', Phase.marker, PhaseMarker.IsReading] at hm

theorem Coherent.line_isOpen {d : Decoder τ} (h : d.Coherent) (hf : d.phase.isFailed = false) : d.line.IsOpen := by
  cases h with
  | size _ _ hl => exact hl
  | payload _ hl => exact hl ▸ Line.isOpen_empty
  | terminator _ _ hl => exact hl
  | trailers _ _ hl => exact hl
  | terminated _ _ hl => exact hl ▸ Line.isOpen_empty
  | failed hp => simp [hp, Phase.isFailed] at hf

/-- The error of a decoder that has failed fits the phase where it did. -/
theorem Coherent.fits {d : Decoder τ} (h : d.Coherent) {m : PhaseMarker} {e : FramingError}
    (hf : d.phase = .failed m e) : e.Fits m d.remaining := by
  cases h with
  | @failed m' e' hp he =>
    obtain ⟨rfl, rfl⟩ : m' = m ∧ e' = e := by simpa [hp] using hf
    exact he
  | size hp => simp [hp] at hf
  | payload hp => simp [hp] at hf
  | terminator hp => simp [hp] at hf
  | trailers hp => simp [hp] at hf
  | terminated hp => simp [hp] at hf

/-- A line may be under way wherever no payload is to come. -/
private theorem Coherent.withLine {d : Decoder τ} (h : d.Coherent) (hm : d.phase.marker.IsReading)
    (hr : d.remaining = 0) {line : Line} (ho : line.IsOpen) (source : Source τ) : Coherent { d with line, source } := by
  cases h with
  | size hp _ _ ht => exact .size hp hr ho ht
  | payload hp _ ht => exact .terminator hp hr ho ht
  | terminator hp _ _ ht => exact .terminator hp hr ho ht
  | trailers hp => exact .trailers hp hr ho
  | terminated hp => simp [hp, Phase.marker, PhaseMarker.IsReading] at hm
  | failed hp => simp [hp, Phase.marker, PhaseMarker.IsReading] at hm

/-- A decoder may fail with any error that fits its phase. -/
private theorem coherent_fail {d : Decoder τ} (h : d.Coherent) {e : FramingError}
    (he : e.Fits d.phase.marker d.remaining) (line : Line) (source : Source τ) :
    (fail { d with line, source } e : Outcome (Decoder τ) α).state.Coherent :=
  .failed rfl he (h.trailers_eq he.isReading)

private theorem Coherent.stall {d : Decoder τ} (h : d.Coherent) (hm : d.phase.marker.IsReading) :
    d.stall.state.Coherent := by
  unfold Decoder.stall
  split
  · exact coherent_fail h (FramingError.fits_truncated hm _) _ _
  · exact h

/-! ### Answers -/

/-- An outcome without an error is one of a decoder that has not failed. -/
def Unfailed (r : Outcome (Decoder τ) α) : Prop := ∀ a, r.result = .ok a → r.state.phase.isFailed = false

private theorem unfailed_stall {d : Decoder τ} (hp : d.phase.isFailed = false) : Unfailed d.stall := by
  intro a h
  unfold stall at h ⊢
  split at h
  · simp [fail] at h
  · rename_i hx
    rwa [if_neg hx]

private theorem unfailed_acceptSizeLine (d : Decoder τ) : Unfailed d.acceptSizeLine := by
  intro a h
  unfold acceptSizeLine at h ⊢
  split at h
  · simp [fail] at h
  · split <;> rfl

private theorem unfailed_acceptTerminator (d : Decoder τ) : Unfailed d.acceptTerminator := by
  intro a h
  unfold acceptTerminator at h ⊢
  split at h
  · rename_i hl
    rw [if_pos hl]
    rfl
  · simp [fail] at h

private theorem unfailed_acceptTrailerLine (δ : Dialect) {d : Decoder τ} (hp : d.phase.isFailed = false) :
    Unfailed (d.acceptTrailerLine δ) := by
  intro a _
  unfold acceptTrailerLine
  split
  · rfl
  · exact hp

/-! ### Lines -/

private theorem coherent_acceptSizeLine {d : Decoder τ} (h : d.Coherent) (hp : d.phase = .size) (line : Line)
    (source : Source τ) : (acceptSizeLine { d with line, source }).state.Coherent := by
  have hm : d.phase.marker = .size := by rw [hp, Phase.marker]
  have ht : d.trailers = 0 := h.trailers_eq (hm ▸ .inl rfl) (by simp [hm])
  unfold acceptSizeLine
  split
  · rename_i e he
    refine coherent_fail h ?_ _ _
    rw [hm, h.remaining_of_size hp]
    exact FramingError.fits_size (SizeLine.isOfSizeLine_of_error he)
  · split
    · rename_i hz
      exact .trailers rfl hz Line.isOpen_empty
    · exact .payload rfl rfl ht

private theorem coherent_acceptTerminator {d : Decoder τ} (h : d.Coherent) (hp : d.phase = .data) (hr : d.remaining = 0)
    (line : Line) (source : Source τ) : (acceptTerminator { d with line, source }).state.Coherent := by
  have hm : d.phase.marker = .data := by rw [hp, Phase.marker]
  unfold acceptTerminator
  split
  · exact .size rfl hr Line.isOpen_empty (h.trailers_eq (hm ▸ .inr (.inl rfl)) (by simp [hm]))
  · refine coherent_fail h ?_ _ _
    rw [hm, hr]
    exact FramingError.fits_missingChunkTerminator

private theorem coherent_acceptTrailerLine (δ : Dialect) {d : Decoder τ} (h : d.Coherent) (hp : d.phase = .trailers)
    (line : Line) (source : Source τ) : (acceptTrailerLine δ { d with line, source }).state.Coherent := by
  have hr := h.remaining_of_trailers hp
  unfold acceptTrailerLine
  split
  · exact .terminated rfl hr rfl
  · exact .trailers hp hr Line.isOpen_empty

variable [Transport τ]

private theorem coherent_withLine {δ : Dialect} {limit : Nat} {accept : Decoder τ → StepOutcome τ} {d : Decoder τ}
    (h : d.Coherent) (hm : d.phase.marker.IsReading) (hr : d.remaining = 0)
    (ha : ∀ line source, (accept { d with line, source }).state.Coherent) :
    (d.withLine δ limit accept).state.Coherent := by
  have ho := h.line_isOpen hm.isFailed_eq
  have hf := Line.framing_fill δ limit d.source ho
  unfold withLine
  simp only
  split
  · rename_i f hres
    simp only [hres] at hf
    exact h.withLine hm hr hf.isOpen _
  · rename_i hres
    simp only [hres] at hf
    exact (h.withLine hm hr hf.isOpen _).stall hm
  · rename_i e hres
    refine coherent_fail (α := Option (Progress Bytes)) h ?_ _ _
    rw [hr]
    exact (Line.breaks_fill ho hres).fits hm
  · exact ha _ _

private theorem Coherent.handOver {d : Decoder τ} (h : d.Coherent) (hp : d.phase = .data) (hr : 0 < d.remaining)
    (room : Nat) : (d.handOver room).state.Coherent := by
  have hm : d.phase.marker = .data := by rw [hp, Phase.marker]
  have hl : d.line = {} := by
    cases h with
    | payload _ hl => exact hl
    | terminated _ _ hl => exact hl
    | size _ hz => simp [hz] at hr
    | terminator _ hz => simp [hz] at hr
    | trailers _ hz => simp [hz] at hr
    | failed hp' => simp [hp] at hp'
  unfold Decoder.handOver
  split
  · exact h
  · simp only
    split
    · exact h.withSource _
    · exact (h.withSource _).stall (by rw [hm]; exact .inr (.inl rfl))
    · exact .payload hp hl (h.trailers_eq (hm ▸ .inr (.inl rfl)) (by simp [hm]))

private theorem unfailed_withLine (δ : Dialect) (limit : Nat) {accept : Decoder τ → StepOutcome τ} {d : Decoder τ}
    (hp : d.phase.isFailed = false) (ha : ∀ line source, Unfailed (accept { d with line, source })) :
    Unfailed (d.withLine δ limit accept) := by
  intro a h
  unfold withLine at h ⊢
  simp only at h ⊢
  split at h
  · simp at h
  · exact unfailed_stall (d := { d with
      line := (d.line.fill δ limit d.source).state.1, source := (d.line.fill δ limit d.source).state.2 }) hp a h
  · simp [fail] at h
  · exact ha _ _ a h

theorem unfailed_step (δ : Dialect) (d : Decoder τ) (room : Nat) : Unfailed (d.step δ room) := by
  unfold step
  split
  · rename_i hp
    exact unfailed_withLine δ _ (by rw [hp]; rfl) fun _ _ => unfailed_acceptSizeLine _
  · rename_i hp
    have hf : d.phase.isFailed = false := by rw [hp]; rfl
    split
    · intro a h
      unfold handOver at h ⊢
      split at h
      · rename_i hr
        rwa [if_pos hr]
      · rename_i hr
        rw [if_neg hr]
        simp only at h ⊢
        split at h
        · simp at h
        · exact unfailed_stall (d := { d with source := (d.source.read (min room d.remaining.toNat)).state }) hf a h
        · exact hf
    · exact unfailed_withLine δ _ hf fun _ _ => unfailed_acceptTerminator _
  · rename_i hp
    have hf : d.phase.isFailed = false := by rw [hp]; rfl
    exact unfailed_withLine δ _ hf fun _ _ => unfailed_acceptTrailerLine δ hf
  · rename_i hp
    intro _ _
    rw [hp]
    rfl
  · intro a h
    simp at h

theorem unfailed_advance (δ : Dialect) (d : Decoder τ) (room : Nat) : Unfailed (d.advance δ room) := by
  fun_induction advance δ d room with
  | case1 d r f hr =>
    intro a h
    simp at h
  | case2 d r p hr => exact fun _ _ => unfailed_step δ d room _ hr
  | case3 d r hr ih => exact ih

/-! ### Steps, reads and runs -/

theorem Coherent.step {d : Decoder τ} (h : d.Coherent) (δ : Dialect) (room : Nat) : (d.step δ room).state.Coherent := by
  unfold Decoder.step
  split
  · rename_i hp
    exact coherent_withLine h (by rw [hp]; exact .inl rfl) (h.remaining_of_size hp) (coherent_acceptSizeLine h hp)
  · rename_i hp
    split
    · rename_i hr
      exact h.handOver hp hr room
    · rename_i hr
      have hr' : d.remaining = 0 := UInt64.le_zero_iff.1 (UInt64.not_lt.1 hr)
      exact coherent_withLine h (by rw [hp]; exact .inr (.inl rfl)) hr' (coherent_acceptTerminator h hp hr')
  · rename_i hp
    exact coherent_withLine h (by rw [hp]; exact .inr (.inr rfl)) (h.remaining_of_trailers hp)
      (coherent_acceptTrailerLine δ h hp)
  · exact h
  · exact h

theorem Coherent.advance (δ : Dialect) (d : Decoder τ) (room : Nat) (h : d.Coherent) :
    (d.advance δ room).state.Coherent := by
  fun_induction Decoder.advance δ d room with
  | case1 d r f hr => exact h.step δ room
  | case2 d r p hr => exact h.step δ room
  | case3 d r hr ih => exact ih (h.step δ room)

theorem Coherent.perform {d : Decoder τ} (h : d.Coherent) (δ : Dialect) (op : Operation) :
    (d.perform δ op).state.Coherent := by
  cases op with
  | read room => exact (Coherent.advance δ d room h).withSource _
  | refill => exact h.withSource _
  | take room => exact h.withSource _
  | replenish => exact h.withSource _
  | noteUsedUp => exact h.withSource _
  | markDraining => exact h.withSource _
  | next limits => exact coherent_ofSource _ _

theorem Coherent.finish {d : Decoder τ} (h : d.Coherent) (δ : Dialect) (ops : List Operation) :
    (d.finish δ ops).Coherent := by
  induction ops generalizing d with
  | nil => exact h
  | cons op ops ih => exact ih (h.perform δ op)

/-- What holds of a decoder after every operation of every run. Payload of a chunk is left in its data only, or where
the decoder has failed, and no line is begun in front of it. A line is never left complete, and it is idle exactly if
it is empty, which it is after the end. Trailers are counted after the last chunk. A decoder has failed in a phase in
which it reads, with an error that can be met there: what a size line says is judged where one is read, the end of a
chunk after its data, and only the end of the transport can keep payload back. -/
theorem phase_invariant (δ : Dialect) (limits : Limits) (source : Source τ) (ops : List Operation) :
    let d := (ofSource source limits).finish δ ops
    (d.phase = .size ∨ d.phase = .trailers ∨ d.phase = .terminated → d.remaining = 0) ∧
      (0 < d.remaining → d.phase = .data ∧ d.line.content = [] ∧ d.line.state = .idle ∨ d.phase.isFailed = true) ∧
      (d.phase.isFailed = false → d.line.state ≠ .complete ∧ (d.line.state = .idle ↔ d.line.content = [])) ∧
      (d.phase = .terminated → d.line.content = [] ∧ d.line.state = .idle) ∧
      (0 < d.trailers → d.phase = .trailers ∨ d.phase = .terminated ∨ ∃ e, d.phase = .failed .trailers e) ∧
      ∀ m e, d.phase = .failed m e →
        (m = .size ∨ m = .data ∨ m = .trailers) ∧ (e.isOfSizeLine = true → m = .size) ∧
          (e = .missingChunkTerminator → m = .data ∧ d.remaining = 0) ∧ (∀ p, e = .truncated p → p = m) ∧
          (0 < d.remaining → e = .truncated m) := by
  intro d
  have h : d.Coherent := (coherent_ofSource source limits).finish δ ops
  cases h with
  | size hp hr hl ht => simp [hp, hr, ht, hl.state_ne_complete, hl.state_eq_idle_iff]
  | payload hp hl ht => simp [hp, hl, ht]
  | terminator hp hr hl ht => simp [hp, hr, ht, hl.state_ne_complete, hl.state_eq_idle_iff]
  | trailers hp hr hl => simp [hp, hr, hl.state_ne_complete, hl.state_eq_idle_iff]
  | terminated hp hr hl => simp [hp, hr, hl]
  | @failed m e hp he ht =>
    have htrailers (h : 0 < d.trailers) : ∃ e, d.phase = .failed .trailers e := by
      obtain rfl : m = .trailers := Classical.byContradiction fun hm => by simp [ht hm] at h
      exact ⟨e, hp⟩
    refine ⟨by simp [hp], fun _ => .inr (by rw [hp, Phase.isFailed]), by simp [hp, Phase.isFailed], by simp [hp],
      fun h => .inr (.inr (htrailers h)), fun m' e' hp' => ?_⟩
    obtain ⟨rfl, rfl⟩ : m = m' ∧ e = e' := by simpa [hp] using hp'
    exact ⟨he.isReading, he.of_sizeLine, fun hm => ⟨he.of_terminator hm, he.remaining_eq hm⟩, he.of_truncated,
      he.of_remaining⟩

end Decoder

end ChunkedTransfer
