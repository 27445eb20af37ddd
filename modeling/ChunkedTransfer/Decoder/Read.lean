import ChunkedTransfer.Decoder.Basic

/-!
# Reading from a decoder

A read goes from step to step until one of them has an answer. A step without an answer has accepted a line, which
took bytes out of the source unless the line was complete before; this work is bounded (`work_step_lt`).
-/

namespace ChunkedTransfer.Decoder

variable {τ : Type} [Transport τ]

/-- What is left to do before a decoder has to stop. -/
def work (d : Decoder τ) : Nat := d.source.supply + if d.line.state = .complete then 1 else 0

/-- A line that leaves no answer was completed and accepted. -/
theorem withLine_of_none {δ : Dialect} {limit : Nat} {accept : Decoder τ → StepOutcome τ} {d : Decoder τ}
    (h : (d.withLine δ limit accept).result = .ok none) :
    let r := d.line.fill δ limit d.source
    let d' := { d with line := r.state.1, source := r.state.2 }
    r.result = .ok .complete ∧ (accept d').result = .ok none ∧ d.withLine δ limit accept = (accept d').after r.events := by
  intro r d'
  unfold withLine at h ⊢
  simp only at h ⊢
  split at h
  · simp at h
  · simp only [Outcome.result_after, stall] at h
    split at h <;> simp [fail] at h
  · simp [fail] at h
  · rename_i hr
    exact ⟨hr, h, rfl⟩

/-- The work that is left after a line was accepted. -/
private theorem work_withLine_lt {δ : Dialect} {limit : Nat} {accept : Decoder τ → StepOutcome τ} {d : Decoder τ}
    (ha : ∀ e : Decoder τ, (accept e).result = .ok none →
      (accept e).state.line = {} ∧ (accept e).state.source = e.source)
    (h : (d.withLine δ limit accept).result = .ok none) :
    (d.withLine δ limit accept).state.work < d.work := by
  obtain ⟨hr, hn, he⟩ := withLine_of_none h
  obtain ⟨hl, hs⟩ := ha _ hn
  rw [he]
  simp only [Outcome.state_after, work, hl, hs]
  by_cases hc : d.line.state = .complete
  · have := Line.supply_fill_le δ limit d.line d.source
    simp [hc]
    omega
  · have := Line.supply_fill_lt hc hr
    simp [hc]
    omega

/-- A step that has no answer leaves less to do. -/
theorem work_step_lt {δ : Dialect} {d : Decoder τ} {room : Nat} (h : (d.step δ room).result = .ok none) :
    (d.step δ room).state.work < d.work := by
  unfold step at h ⊢
  split at h
  · rename_i hp
    refine work_withLine_lt (fun e he => ?_) h
    unfold acceptSizeLine at he ⊢
    split at he
    · simp [fail] at he
    · split <;> simp
  · rename_i hp
    split at h
    · rename_i hr
      unfold handOver at h
      split at h
      · simp at h
      · simp only at h
        split at h
        · simp at h
        · simp only [Outcome.result_after, stall] at h
          split at h <;> simp [fail] at h
        · simp at h
    · rename_i hr
      simp only [if_neg hr]
      refine work_withLine_lt (fun e he => ?_) h
      unfold acceptTerminator at he ⊢
      split at he
      · rename_i hl
        simp [hl]
      · simp [fail] at he
  · rename_i hp
    refine work_withLine_lt (fun e he => ?_) h
    unfold acceptTrailerLine
    split <;> simp
  · simp at h
  · simp at h

/-- Goes from step to step until there is an answer. -/
def advance (δ : Dialect) (d : Decoder τ) (room : Nat) : Outcome (Decoder τ) (Progress Bytes) :=
  let r := d.step δ room
  match _h : r.result with
  | .error f => ⟨.error f, r.state, r.events⟩
  | .ok (some p) => ⟨.ok p, r.state, r.events⟩
  | .ok none => (advance δ r.state room).after r.events
termination_by d.work
decreasing_by exact work_step_lt _h

theorem advance_of_answer {δ : Dialect} {d : Decoder τ} {room : Nat} {p : Progress Bytes}
    (h : (d.step δ room).result = .ok (some p)) :
    d.advance δ room = ⟨.ok p, (d.step δ room).state, (d.step δ room).events⟩ := by
  fun_cases advance δ d room with
  | case1 r f hr => simp [r, h] at hr
  | case2 r q hr =>
    obtain rfl : p = q := by simpa [r, h] using hr
    rfl
  | case3 r hr => simp [r, h] at hr

theorem advance_of_error {δ : Dialect} {d : Decoder τ} {room : Nat} {f : Fault}
    (h : (d.step δ room).result = .error f) :
    d.advance δ room = ⟨.error f, (d.step δ room).state, (d.step δ room).events⟩ := by
  fun_cases advance δ d room with
  | case1 r g hr =>
    obtain rfl : f = g := by simpa [r, h] using hr
    rfl
  | case2 r p hr => simp [r, h] at hr
  | case3 r hr => simp [r, h] at hr

theorem advance_of_none {δ : Dialect} {d : Decoder τ} {room : Nat} (h : (d.step δ room).result = .ok none) :
    d.advance δ room = ((d.step δ room).state.advance δ room).after (d.step δ room).events := by
  fun_cases advance δ d room with
  | case1 r f hr => simp [r, h] at hr
  | case2 r p hr => simp [r, h] at hr
  | case3 r hr => rfl

/-- Hands over payload, as much as one chunk has and as fits into the room, or tells why there is none. -/
def read (δ : Dialect) (d : Decoder τ) (room : Nat) : Outcome (Decoder τ) (Progress Bytes) :=
  let r := d.advance δ room
  let s := r.state.source.report (r.result.map (Progress.map List.length))
  ⟨r.result, { r.state with source := s.1 }, r.events ++ s.2⟩

/-- A read as a stream of bytes sees it: no bytes at the end of the body, and a fault when it would block. -/
def readBytes (δ : Dialect) (d : Decoder τ) (room : Nat) : Outcome (Decoder τ) Bytes :=
  (d.read δ room).andThen fun progress d =>
    match progress with
    | .read payload => ⟨.ok payload, d, []⟩
    | .pending => ⟨.error .wouldBlock, d, []⟩
    | .ended => ⟨.ok [], d, []⟩

end ChunkedTransfer.Decoder
