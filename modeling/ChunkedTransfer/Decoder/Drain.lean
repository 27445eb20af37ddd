import ChunkedTransfer.Decoder.Read

/-!
# Reading a whole body

Reads are repeated until the body ends or there is a fault, or a given number of times. The bytes that are read
come out of the supply of the source, so that only a finite number of reads can give any.
-/

namespace ChunkedTransfer.Decoder

variable {τ : Type}

theorem source_acceptSizeLine (d : Decoder τ) : d.acceptSizeLine.state.source = d.source := by
  unfold acceptSizeLine
  split
  · rfl
  · split <;> rfl

theorem source_acceptTerminator (d : Decoder τ) : d.acceptTerminator.state.source = d.source := by
  unfold acceptTerminator
  split <;> rfl

theorem source_acceptTrailerLine (δ : Dialect) (d : Decoder τ) :
    (d.acceptTrailerLine δ).state.source = d.source := by
  unfold acceptTrailerLine
  split <;> rfl

theorem source_stall (d : Decoder τ) : d.stall.state.source = d.source := by
  unfold stall
  split <;> rfl

private theorem acceptSizeLine_ne_some (d : Decoder τ) (p : Progress Bytes) :
    d.acceptSizeLine.result ≠ .ok (some p) := by
  unfold acceptSizeLine
  split
  · simp [fail]
  · split <;> simp

private theorem acceptTerminator_ne_some (d : Decoder τ) (p : Progress Bytes) :
    d.acceptTerminator.result ≠ .ok (some p) := by
  unfold acceptTerminator
  split <;> simp [fail]

private theorem acceptTrailerLine_ne_some (δ : Dialect) (d : Decoder τ) (p : Progress Bytes) :
    (d.acceptTrailerLine δ).result ≠ .ok (some p) := by
  unfold acceptTrailerLine
  split <;> simp

private theorem eq_pending_of_stall {d : Decoder τ} {p : Progress Bytes} (h : d.stall.result = .ok (some p)) :
    p = .pending := by
  unfold stall at h
  split at h
  · simp [fail] at h
  · simpa using h.symm

variable [Transport τ]

private theorem supply_withLine_le (δ : Dialect) (limit : Nat) {accept : Decoder τ → StepOutcome τ} (d : Decoder τ)
    (ha : ∀ e : Decoder τ, (accept e).state.source = e.source) :
    (d.withLine δ limit accept).state.source.supply ≤ d.source.supply := by
  have h := Line.supply_fill_le δ limit d.line d.source
  unfold withLine
  simp only
  split
  · exact h
  · simp only [Outcome.state_after, stall]
    split <;> exact h
  · exact h
  · simpa [ha] using h

private theorem supply_handOver_le (d : Decoder τ) (room : Nat) :
    (d.handOver room).state.source.supply ≤ d.source.supply := by
  have h := d.source.supply_read_le_self (min room d.remaining.toNat)
  unfold handOver
  split
  · exact Nat.le_refl _
  · simp only
    split
    · exact h
    · simpa [source_stall] using h
    · exact h

private theorem supply_step_le (δ : Dialect) (d : Decoder τ) (room : Nat) :
    (d.step δ room).state.source.supply ≤ d.source.supply := by
  unfold step
  split
  · exact supply_withLine_le δ _ d source_acceptSizeLine
  · split
    · exact d.supply_handOver_le room
    · exact supply_withLine_le δ _ d source_acceptTerminator
  · exact supply_withLine_le δ _ d (source_acceptTrailerLine δ)
  · exact Nat.le_refl _
  · exact Nat.le_refl _

/-- All that a line has to answer is that it waits for more. -/
private theorem eq_pending_of_withLine {δ : Dialect} {limit : Nat} {accept : Decoder τ → StepOutcome τ} {d : Decoder τ}
    {p : Progress Bytes} (ha : ∀ e : Decoder τ, (accept e).result ≠ .ok (some p))
    (h : (d.withLine δ limit accept).result = .ok (some p)) : p = .pending := by
  unfold withLine at h
  simp only at h
  split at h
  · simp at h
  · exact eq_pending_of_stall h
  · simp [fail] at h
  · exact absurd h (ha _)

/-- An answer that is not to wait is given by the data of a chunk, or at the end of the body. -/
private theorem step_of_answer {δ : Dialect} {d : Decoder τ} {room : Nat} {p : Progress Bytes}
    (h : (d.step δ room).result = .ok (some p)) (hp : p ≠ .pending) :
    (d.phase = .data ∧ 0 < d.remaining ∧ d.step δ room = d.handOver room) ∨
      (p = .ended ∧ d.phase = .terminated ∧ d.step δ room = ⟨.ok (some .ended), d, []⟩) := by
  unfold step at h ⊢
  split at h
  · exact absurd (eq_pending_of_withLine (fun e => e.acceptSizeLine_ne_some p) h) hp
  · rename_i hd
    split at h
    · rename_i hr
      exact .inl ⟨hd, hr, if_pos hr⟩
    · exact absurd (eq_pending_of_withLine (fun e => e.acceptTerminator_ne_some p) h) hp
  · exact absurd (eq_pending_of_withLine (fun e => e.acceptTrailerLine_ne_some δ p) h) hp
  · rename_i ht
    exact .inr ⟨by simpa using h.symm, ht, rfl⟩
  · simp at h

/-- Payload is handed over in the data of a chunk. -/
theorem step_of_read {δ : Dialect} {d : Decoder τ} {room : Nat} {bs : Bytes}
    (h : (d.step δ room).result = .ok (some (.read bs))) :
    d.phase = .data ∧ 0 < d.remaining ∧ d.step δ room = d.handOver room := by
  rcases step_of_answer h (by simp) with hs | ⟨hp, -, -⟩
  · exact hs
  · simp at hp

/-- Payload that is handed over was read from the source. There is none only for want of room. -/
theorem handOver_of_read {d : Decoder τ} {room : Nat} {bs : Bytes}
    (h : (d.handOver room).result = .ok (some (.read bs))) :
    (room = 0 ∧ bs = [] ∧ d.handOver room = ⟨.ok (some (.read [])), d, []⟩) ∨
      (bs ≠ [] ∧ (d.source.read (min room d.remaining.toNat)).result = .ok bs ∧
        d.handOver room = ⟨.ok (some (.read bs)),
          { d with
            source := (d.source.read (min room d.remaining.toNat)).state
            remaining := d.remaining - bs.length.toUInt64
            decoded := d.decoded + bs.length.toUInt64 },
          (d.source.read (min room d.remaining.toNat)).events⟩) := by
  unfold handOver at h ⊢
  split at h
  · rename_i hz
    simp only [Except.ok.injEq, Option.some.injEq, Progress.read.injEq] at h
    exact .inl ⟨hz, h.symm, if_pos hz⟩
  · rename_i hz
    rw [if_neg hz]
    simp only at h ⊢
    split at h
    · simp at h
    · simp only [Outcome.result_after, stall] at h
      split at h <;> simp [fail] at h
    · rename_i b t hb
      simp only [Except.ok.injEq, Option.some.injEq, Progress.read.injEq] at h
      subst h
      exact .inr ⟨by simp, hb, rfl⟩

/-- The end is told only where the body has ended, and nothing is done there. -/
theorem step_of_ended {δ : Dialect} {d : Decoder τ} {room : Nat} (h : (d.step δ room).result = .ok (some .ended)) :
    d.phase = .terminated ∧ d.step δ room = ⟨.ok (some .ended), d, []⟩ := by
  rcases step_of_answer h (by simp) with ⟨-, -, hs⟩ | ⟨-, ht, hs⟩
  · rw [hs] at h
    unfold handOver at h
    split at h
    · simp at h
    · simp only at h
      split at h
      · simp at h
      · exact absurd (eq_pending_of_stall h) (by simp)
      · simp at h
  · exact ⟨ht, hs⟩

/-- Payload comes out of the supply. -/
private theorem supply_step_of_read {δ : Dialect} {d : Decoder τ} {room : Nat} {bs : Bytes}
    (h : (d.step δ room).result = .ok (some (.read bs))) :
    bs.length + (d.step δ room).state.source.supply ≤ d.source.supply := by
  obtain ⟨-, -, hs⟩ := step_of_read h
  rw [hs] at h ⊢
  rcases handOver_of_read h with ⟨-, rfl, ho⟩ | ⟨-, hb, ho⟩
  · simp [ho]
  · rw [ho]
    exact Source.supply_read_le hb

private theorem supply_advance_of_read {δ : Dialect} {d : Decoder τ} {room : Nat} {bs : Bytes}
    (h : (d.advance δ room).result = .ok (.read bs)) :
    bs.length + (d.advance δ room).state.source.supply ≤ d.source.supply := by
  fun_induction advance δ d room with
  | case1 d r f hr => simp at h
  | case2 d r p hr =>
    simp only [Except.ok.injEq] at h
    subst h
    exact supply_step_of_read hr
  | case3 d r hr ih => exact Nat.le_trans (ih h) (supply_step_le δ d room)

private theorem supply_readBytes_of_ok {δ : Dialect} {d : Decoder τ} {room : Nat} {b : UInt8} {bs : Bytes}
    (h : (d.readBytes δ room).result = .ok (b :: bs)) :
    (d.readBytes δ room).state.source.supply < d.source.supply := by
  unfold readBytes Outcome.andThen at h ⊢
  split at h
  · rename_i p hp
    simp only [Outcome.result_after] at h
    split at h
    · rename_i payload
      simp only [Except.ok.injEq] at h
      have := supply_advance_of_read hp
      simp only [h, List.length_cons] at this
      simp only [Outcome.state_after, read, Source.supply_report]
      omega
    · simp at h
    · simp at h
  · simp at h

/-- Reads the rest of the body. Gives its payload, and the fault that kept the body from its end. -/
def readToEnd (δ : Dialect) (d : Decoder τ) (room : Nat) : Bytes × Outcome (Decoder τ) Unit :=
  let r := d.readBytes δ room
  match _h : r.result with
  | .error f => ([], ⟨.error f, r.state, r.events⟩)
  | .ok [] => ([], ⟨.ok (), r.state, r.events⟩)
  | .ok (b :: bs) =>
    let rest := readToEnd δ r.state room
    (b :: bs ++ rest.1, rest.2.after r.events)
termination_by d.source.supply
decreasing_by exact supply_readBytes_of_ok _h

/-- The results of up to `count` reads. None follows the end of the body or a fault. -/
def readTimes (δ : Dialect) (d : Decoder τ) (room : Nat) :
    Nat → Outcome (Decoder τ) (List (Except Fault (Progress Bytes)))
  | 0 => ⟨.ok [], d, []⟩
  | count + 1 =>
    let r := d.read δ room
    match r.result with
    | .ok .ended | .error _ => ⟨.ok [r.result], r.state, r.events⟩
    | .ok _ => ((readTimes δ r.state room count).map (r.result :: ·)).after r.events

end ChunkedTransfer.Decoder
