import ChunkedTransfer.Proofs.Bounds
import ChunkedTransfer.Proofs.Phases
import ChunkedTransfer.Proofs.Stall

/-!
# Bounds on the line

How long the line of a decoder can grow, whatever its transport sends. The length of a line is held against the limit
only after all data of the buffer was moved into it, so that a line that is refused may be longer than the limit by as
much as the storage holds (`Line.length_fill_le`). A line that waits for its end is within the limit, but for a carriage
return that may belong to that end, and a line that has come to its end is within the limit (`Line.isWithin_fill`,
`Line.length_le_of_complete`).

Each phase has its own limit, and a line is begun anew wherever the limit changes. So the bound is kept by every step
(`Decoder.KeepsLine.step`), and holds in every state that a run reaches (`Decoder.lines_bounded`).
-/

namespace ChunkedTransfer

/-- The limit for the lines of a phase. -/
def Limits.lineOf (limits : Limits) : PhaseMarker → Nat
  | .trailers => limits.trailerLine
  | .size | .data | .terminated | .error => limits.chunkLine

/-- The phase that was reached before any failure. -/
def Phase.reached : Phase → PhaseMarker
  | failed m _ => m
  | p => p.marker

/-! ### Lines -/

namespace Line

variable {δ : Dialect} {limit : Nat}

/-- Within the limit, or longer by a carriage return that may belong to the end of the line. -/
def IsWithin (limit : Nat) (l : Line) : Prop :=
  l.content.length ≤ limit ∨ l.content.length = limit + 1 ∧ l.content.getLast? = some carriageReturn

private theorem isWithin_iff {l : Line} : l.IsWithin limit ↔ framedLength l.content ≤ limit := by
  unfold IsWithin framedLength
  split
  · rename_i hcr
    simp only [hcr, and_true]
    omega
  · rename_i hcr
    simp only [hcr, and_false, or_false]

private theorem isWithin_empty (limit : Nat) : IsWithin limit {} := .inl (Nat.zero_le _)

private theorem IsWithin.length_le {l : Line} (h : l.IsWithin limit) : l.content.length ≤ limit + 1 := by
  rcases h with h | ⟨h, -⟩ <;> omega

/-- A line that stays open is within the limit if it was before. -/
private theorem Framing.isWithin {l l' : Line} {bs : Bytes} (h : Framing δ limit l.content bs l' .dry)
    (hl : l.IsWithin limit) : l'.IsWithin limit := by
  obtain ⟨-, hbs, -, hc⟩ := h
  rw [isWithin_iff] at hl ⊢
  rw [hc]
  rcases hbs with rfl | hbs
  · rwa [List.append_nil]
  · exact hbs

/-- No more is moved into a line than the buffer holds. -/
private theorem length_absorb_le (δ : Dialect) (limit : Nat) (l : Line) (b : Buffer) :
    (l.absorb δ limit b).line.content.length ≤ l.content.length + b.available := by
  by_cases hl : l.state = .complete
  · simp [absorb, hl]
  rw [← b.length_data]
  rcases lineFeed_cases b.data with hb | ⟨front, rest, hf, hd⟩
  · simp [absorb_of_no_lineFeed hl hb, Line.extend]
  · rw [absorb_of_lineFeed hl hf hd, hd]
    simp only [finish, List.length_append, List.length_cons]
    split
    · simp only [List.length_dropLast, List.length_append]
      omega
    · split <;> simp only [List.length_append] <;> omega

variable {τ : Type} [Transport τ]

/-- The data of a source that was replenished fits into its storage. -/
private theorem available_replenish_le (s : Source τ) : s.replenish.state.buffer.available ≤ s.buffer.capacity := by
  rw [← s.trace_replenish.capacity_eq]
  exact Buffer.available_le_capacity _

/-- However a filling stops, the line is longer than the limit by no more than the storage holds, and one. -/
theorem length_fill_le {l : Line} {s : Source τ} (ho : l.IsOpen) (hl : l.IsWithin limit) :
    (l.fill δ limit s).state.1.content.length ≤ limit + 1 + s.buffer.capacity := by
  -- What one turn adds to a line that was within the limit.
  have hturn (l : Line) (s : Source τ) (hl : l.IsWithin limit) :
      (l.absorb δ limit s.replenish.state.buffer).line.content.length ≤ limit + 1 + s.buffer.capacity := by
    have := length_absorb_le δ limit l s.replenish.state.buffer
    have := available_replenish_le s
    have := hl.length_le
    omega
  fun_induction fill δ limit l s with
  | case1 l s r f hr => exact Nat.le_trans hl.length_le (Nat.le_add_right ..)
  | case2 l s r hr => exact Nat.le_trans hl.length_le (Nat.le_add_right ..)
  | case3 l s r n hr a s' events e ha => exact hturn l s hl
  | case4 l s r n hr a s' events ha => exact hturn l s hl
  | case5 l s r n hr a s' events state ha hstate ih =>
    have hf := framing_absorb δ limit ho (Source.data_ne_nil_of_replenish hr)
    rw [ha, turnOf_of_ne_complete hstate] at hf
    rw [← (trace_turn δ limit l s).capacity_eq]
    exact ih hf.isOpen (hf.isWithin hl)

/-- A line that is not at its end yet, and was not refused, stays within the limit. -/
theorem isWithin_fill {l : Line} {s : Source τ} (ho : l.IsOpen) (hl : l.IsWithin limit)
    (h : (l.fill δ limit s).result = .ok .dry ∨ ∃ f, (l.fill δ limit s).result = .error f) :
    (l.fill δ limit s).state.1.IsWithin limit := by
  have hf := framing_fill δ limit s ho
  rcases h with h | ⟨f, h⟩
  · rw [h] at hf
    exact hf.isWithin hl
  · rw [h] at hf
    exact hf.isWithin hl

theorem length_le_of_complete {l : Line} {s : Source τ} (ho : l.IsOpen)
    (h : (l.fill δ limit s).result = .ok .complete) : (l.fill δ limit s).state.1.content.length ≤ limit := by
  have hf := framing_fill δ limit s ho
  rw [h] at hf
  obtain ⟨-, -, -, -, hl⟩ := hf.of_complete
  exact hl

end Line

namespace Decoder

variable {τ : Type}

/-- The limit for the line that is read, or was read when the decoder failed. -/
def lineLimit (d : Decoder τ) : Nat := d.limits.lineOf d.phase.reached

/-- How long the line of a decoder may be in its phase. -/
structure KeepsLine (d : Decoder τ) : Prop where
  of_running : d.phase.isFailed = false → d.line.IsWithin d.lineLimit
  of_failed : d.phase.isFailed = true → d.line.content.length ≤ d.lineLimit + 1 + d.source.buffer.capacity

private theorem lineLimit_eq {d : Decoder τ} (hp : d.phase.isFailed = false) :
    d.lineLimit = d.limits.lineOf d.phase.marker := by
  unfold lineLimit Phase.reached
  cases h : d.phase with
  | failed m e => simp [h, Phase.isFailed] at hp
  | _ => rfl

private theorem keepsLine_of_empty {d : Decoder τ} (h : d.line = {}) : d.KeepsLine where
  of_running _ := h ▸ Line.isWithin_empty _
  of_failed _ := by
    rw [h]
    exact Nat.zero_le _

private theorem keepsLine_of_running {d : Decoder τ} (hp : d.phase.isFailed = false)
    (hl : d.line.IsWithin d.lineLimit) : d.KeepsLine where
  of_running _ := hl
  of_failed hf := by simp [hp] at hf

private theorem KeepsLine.withSource {d : Decoder τ} (h : d.KeepsLine) {source : Source τ}
    (hc : source.buffer.capacity = d.source.buffer.capacity) : KeepsLine { d with source } where
  of_running := h.of_running
  of_failed hf := by
    rw [hc]
    exact h.of_failed hf

/-- The limit of a decoder that fails is that of the phase in which it does. -/
private theorem keepsLine_fail {d : Decoder τ} (hp : d.phase.isFailed = false)
    (hl : d.line.content.length ≤ d.lineLimit + 1 + d.source.buffer.capacity) (e : FramingError) :
    (d.fail e : StepOutcome τ).state.KeepsLine where
  of_running hf := by simp [fail, Phase.fail, Phase.isFailed] at hf
  of_failed _ := by
    rw [lineLimit_eq hp] at hl
    exact hl

private theorem KeepsLine.stall {d : Decoder τ} (h : d.KeepsLine) (hp : d.phase.isFailed = false) :
    d.stall.state.KeepsLine := by
  have hl := (h.of_running hp).length_le
  unfold Decoder.stall
  split
  · exact keepsLine_fail hp (by omega) _
  · exact h

/-! ### Accepting a line -/

section

variable {d : Decoder τ} (hp : d.phase.isFailed = false) (hl : d.line.content.length ≤ d.lineLimit)

include hp hl

private theorem keepsLine_acceptSizeLine : d.acceptSizeLine.state.KeepsLine := by
  unfold acceptSizeLine
  split
  · exact keepsLine_fail hp (by omega) _
  · split <;> exact keepsLine_of_empty rfl

private theorem keepsLine_acceptTerminator : d.acceptTerminator.state.KeepsLine := by
  unfold acceptTerminator
  split
  · exact keepsLine_of_empty rfl
  · exact keepsLine_fail hp (by omega) _

end

private theorem keepsLine_acceptTrailerLine (δ : Dialect) (d : Decoder τ) :
    (d.acceptTrailerLine δ).state.KeepsLine := by
  unfold acceptTrailerLine
  split <;> exact keepsLine_of_empty rfl

variable [Transport τ]

/-! ### Steps -/

private theorem KeepsLine.withLine {δ : Dialect} {limit : Nat} {accept : Decoder τ → StepOutcome τ} {d : Decoder τ}
    (h : d.KeepsLine) (hc : d.Coherent) (hp : d.phase.isFailed = false) (hlimit : d.lineLimit = limit)
    (ha : ∀ line source, line.content.length ≤ limit → (accept { d with line, source }).state.KeepsLine) :
    (d.withLine δ limit accept).state.KeepsLine := by
  subst hlimit
  have hl := h.of_running hp
  have ho := hc.line_isOpen hp
  have hlength := Line.length_fill_le (δ := δ) (s := d.source) ho hl
  rw [← (Line.trace_fill δ d.lineLimit d.line d.source).capacity_eq] at hlength
  let d' : Decoder τ := { d with
    line := (d.line.fill δ d.lineLimit d.source).state.1, source := (d.line.fill δ d.lineLimit d.source).state.2 }
  have hkeeps (hw : d'.line.IsWithin d.lineLimit) : d'.KeepsLine := keepsLine_of_running hp hw
  unfold Decoder.withLine
  simp only
  split
  · rename_i f hr
    exact hkeeps (Line.isWithin_fill ho hl (.inr ⟨f, hr⟩))
  · rename_i hr
    exact (hkeeps (Line.isWithin_fill ho hl (.inl hr))).stall hp
  · rename_i e hr
    exact keepsLine_fail (d := d') hp hlength e
  · rename_i hr
    exact ha _ _ (Line.length_le_of_complete ho hr)

private theorem KeepsLine.handOver {d : Decoder τ} (h : d.KeepsLine) (hp : d.phase.isFailed = false) (room : Nat) :
    (d.handOver room).state.KeepsLine := by
  have hkeeps : KeepsLine { d with source := (d.source.read (min room d.remaining.toNat)).state } :=
    h.withSource (Source.trace_read _ _).capacity_eq
  unfold Decoder.handOver
  split
  · exact h
  · simp only
    split
    · exact hkeeps
    · exact hkeeps.stall hp
    · exact ⟨hkeeps.of_running, hkeeps.of_failed⟩

theorem KeepsLine.step {d : Decoder τ} (h : d.KeepsLine) (hc : d.Coherent) (δ : Dialect) (room : Nat) :
    (d.step δ room).state.KeepsLine := by
  unfold Decoder.step
  split
  · rename_i hp
    have hf : d.phase.isFailed = false := by rw [hp]; rfl
    have hlimit : d.lineLimit = d.limits.chunkLine := by rw [lineLimit, hp]; rfl
    exact h.withLine hc hf hlimit fun line source hl =>
      keepsLine_acceptSizeLine hf (hlimit ▸ hl)
  · rename_i hp
    have hf : d.phase.isFailed = false := by rw [hp]; rfl
    have hlimit : d.lineLimit = d.limits.chunkLine := by rw [lineLimit, hp]; rfl
    split
    · exact h.handOver hf room
    · exact h.withLine hc hf hlimit fun line source hl =>
        keepsLine_acceptTerminator hf (hlimit ▸ hl)
  · rename_i hp
    have hf : d.phase.isFailed = false := by rw [hp]; rfl
    have hlimit : d.lineLimit = d.limits.trailerLine := by rw [lineLimit, hp]; rfl
    exact h.withLine hc hf hlimit fun line source _ =>
      keepsLine_acceptTrailerLine δ _
  · exact h
  · exact h

/-! ### Reads and runs -/

private theorem KeepsLine.advance (δ : Dialect) (d : Decoder τ) (room : Nat) (h : d.KeepsLine) (hc : d.Coherent) :
    (d.advance δ room).state.KeepsLine := by
  fun_induction Decoder.advance δ d room with
  | case1 d r f hr => exact h.step hc δ room
  | case2 d r p hr => exact h.step hc δ room
  | case3 d r hr ih => exact ih (h.step hc δ room) (hc.step δ room)

private theorem KeepsLine.perform {d : Decoder τ} (h : d.KeepsLine) (hc : d.Coherent) (δ : Dialect) (op : Operation) :
    (d.perform δ op).state.KeepsLine := by
  rcases d.perform_cases δ op with ⟨room, rfl⟩ | ⟨limits, rfl⟩ | ⟨-, source, hs⟩
  · exact (KeepsLine.advance δ d room h hc).withSource (by rw [Source.buffer_report])
  · exact keepsLine_of_empty rfl
  · have hcapacity := (d.trace_perform δ op).capacity_eq
    rw [hs] at hcapacity ⊢
    exact h.withSource hcapacity

private theorem KeepsLine.finish {d : Decoder τ} (h : d.KeepsLine) (hc : d.Coherent) (δ : Dialect)
    (ops : List Operation) : (d.finish δ ops).KeepsLine := by
  induction ops generalizing d with
  | nil => exact h
  | cons op ops ih => exact ih (h.perform hc δ op) (hc.perform δ op)

/-- Inside a read the capacity of the storage, what the phase admits and the length of the line are kept too. -/
private theorem Passes.keepsLine {δ : Dialect} {room : Nat} {d e : Decoder τ} (hp : Passes δ room d e) (h : d.KeepsLine)
    (hc : d.Coherent) : e.KeepsLine ∧ e.Coherent ∧ e.source.buffer.capacity = d.source.buffer.capacity := by
  induction hp with
  | refl d => exact ⟨h, hc, rfl⟩
  | @step d e hr _ ih =>
    obtain ⟨he, hce, hcapacity⟩ := ih (h.step hc δ room) (hc.step δ room)
    exact ⟨he, hce, hcapacity.trans (d.trace_step δ room).capacity_eq⟩

/-- The lines that a decoder acts on in its next step: what the filling of the line for its phase has completed. -/
inductive ActsOn (δ : Dialect) (d : Decoder τ) : Bytes → Prop
  | sizeLine (hp : d.phase = .size)
      (hf : (d.line.fill δ d.limits.chunkLine d.source).result = .ok .complete) :
      ActsOn δ d (d.line.fill δ d.limits.chunkLine d.source).state.1.content
  | terminator (hp : d.phase = .data) (hr : d.remaining = 0)
      (hf : (d.line.fill δ d.limits.chunkLine d.source).result = .ok .complete) :
      ActsOn δ d (d.line.fill δ d.limits.chunkLine d.source).state.1.content
  | trailerLine (hp : d.phase = .trailers)
      (hf : (d.line.fill δ d.limits.trailerLine d.source).result = .ok .complete) :
      ActsOn δ d (d.line.fill δ d.limits.trailerLine d.source).state.1.content

private theorem ActsOn.length_le {δ : Dialect} {d : Decoder τ} {line : Bytes} (h : ActsOn δ d line) (hc : d.Coherent) :
    line.length ≤ d.lineLimit := by
  cases h with
  | sizeLine hp hf =>
    rw [lineLimit, hp]
    exact Line.length_le_of_complete (hc.line_isOpen (by rw [hp]; rfl)) hf
  | terminator hp _ hf =>
    rw [lineLimit, hp]
    exact Line.length_le_of_complete (hc.line_isOpen (by rw [hp]; rfl)) hf
  | trailerLine hp hf =>
    rw [lineLimit, hp]
    exact Line.length_le_of_complete (hc.line_isOpen (by rw [hp]; rfl)) hf

/-- The line is bounded whatever the transport sends. In every state that a run reaches, and in those that the next read
passes, the line of a decoder that has not failed is within the limit of its phase, but for a carriage return that may
belong to the end of the line. There is no line after the end of the body. The line of a decoder that has failed is
longer than the limit of the phase where it failed by no more than one byte and what the storage can hold. No line that
the decoder acts on is longer than the limit. -/
theorem lines_bounded (δ : Dialect) (limits : Limits) (source : Source τ) (ops : List Operation) (room : Nat) :
    let d := (ofSource source limits).finish δ ops
    ∀ e : Decoder τ, Passes δ room d e →
      (e.phase.isFailed = false → e.line.content.length ≤ e.lineLimit ∨
        e.line.content.length = e.lineLimit + 1 ∧ e.line.content.getLast? = some carriageReturn) ∧
      (e.phase = .terminated → e.line.content = []) ∧
      (e.phase.isFailed = true → e.line.content.length ≤ e.lineLimit + 1 + source.buffer.capacity) ∧
      ∀ line, ActsOn δ e line → line.length ≤ e.lineLimit := by
  intro d e hpasses
  have hd : d.KeepsLine := (keepsLine_of_empty rfl).finish (coherent_ofSource source limits) δ ops
  have hdc : d.Coherent := (coherent_ofSource source limits).finish δ ops
  obtain ⟨he, hec, hcapacity⟩ := hpasses.keepsLine hd hdc
  rw [((ofSource source limits).trace_run δ ops).capacity_eq] at hcapacity
  refine ⟨he.of_running, fun hp => ?_, fun hf => ?_, fun line hline => hline.length_le hec⟩
  · rw [hec.line_of_terminated hp]
  · have := he.of_failed hf
    rwa [hcapacity] at this

/-- A line of one byte and a carriage return, where the limit is one byte, and then as many bytes as the storage holds. -/
theorem lines_bounded_of_overlong :
    let limits : Limits := { chunkLine := 1 }
    let t : Fragments := ⟨[.fragment 48 [13], .gap, .fragment 48 [48, 48, 48]], false⟩
    let source := Source.ofBuffer (.ofStorage (List.replicate 4 0)) t
    let d := (ofSource source limits).finish .strict [.read 1]
    let e := (ofSource source limits).finish .strict [.read 1, .read 1]
    d.phase = .size ∧ d.line.content.length = d.lineLimit + 1 ∧ d.line.content.getLast? = some carriageReturn ∧
      e.phase = .failed .size (.lineTooLong 6 1) ∧ e.line.content.length = e.lineLimit + 1 + 4 ∧
      e.line.content.length ≤ e.lineLimit + 1 + source.buffer.capacity := by
  intro limits t source d e
  refine ⟨by decide +kernel, by decide +kernel, by decide +kernel, by decide +kernel, by decide +kernel, ?_⟩
  exact (lines_bounded .strict limits source [.read 1, .read 1] 1 e (.refl e)).2.2.1 (by decide +kernel)

end Decoder

end ChunkedTransfer
