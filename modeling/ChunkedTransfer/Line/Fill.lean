import ChunkedTransfer.Line.Basic
import ChunkedTransfer.Source.Supply

/-!
# Lines of a source

A line is filled from a source until it is complete or the source has nothing more to give. Every turn takes at
least one byte out of the source, so the turns come to an end.
-/

namespace ChunkedTransfer

namespace Line

/-- How the filling of a line stopped. -/
inductive Turn
  | complete
  /-- The source has no bytes for now. -/
  | dry
  | broken (error : FramingError)
  deriving DecidableEq, Repr, Inhabited

/-- A line that does not become complete has taken all of the data. -/
private theorem available_absorb_of_ok {δ : Dialect} {limit : Nat} {l : Line} {b : Buffer} {state : LineState}
    (h : (l.absorb δ limit b).result = .ok state) (hs : state ≠ .complete) :
    (l.absorb δ limit b).buffer.available = 0 := by
  unfold absorb at h ⊢
  split at h
  · simp_all
  · rename_i hl
    rw [if_neg hl]
    simp only at h ⊢
    split at h
    · exfalso
      simp only [finish] at h
      split at h
      · simp only [Except.bind, checked] at h
        split at h <;> simp_all
      · split at h
        · simp only [Except.bind, checked] at h
          split at h <;> simp_all
        · simp [Except.bind] at h
    · rename_i hf
      rw [if_neg hf]
      have := (List.takeWhile_sublist (· != lineFeed) (l := b.data)).length_le
      have hc := b.available_consume (b.data.takeWhile (· != lineFeed)).length
      rw [b.length_data] at this hf
      simp only
      omega

private theorem available_absorb_le (δ : Dialect) (limit : Nat) (l : Line) (b : Buffer) :
    (l.absorb δ limit b).buffer.available ≤ b.available := by
  unfold absorb
  split
  · exact Nat.le_refl _
  · simp only
    split
    · exact Nat.le.intro (b.available_consume _)
    · exact Nat.le.intro (b.available_consume _)

/-- A line that becomes complete has taken its line feed. -/
private theorem available_absorb_lt {δ : Dialect} {limit : Nat} {l : Line} {b : Buffer} (hl : l.state ≠ .complete)
    (hb : 0 < b.available) : (l.absorb δ limit b).buffer.available < b.available := by
  unfold absorb
  rw [if_neg hl]
  simp only
  split
  · rename_i hf
    have hc := b.available_consume (b.data.takeWhile (· != lineFeed) ++ [lineFeed]).length
    simp only [List.length_append, List.length_cons, List.length_nil] at hc ⊢
    omega
  · rename_i hf
    have := (List.takeWhile_sublist (· != lineFeed) (l := b.data)).length_le
    have hc := b.available_consume (b.data.takeWhile (· != lineFeed)).length
    rw [b.length_data] at this hf
    simp only
    omega

variable {τ : Type} [Transport τ]

/-- Moves bytes of the source into the line until it is complete, and no further. -/
def fill (δ : Dialect) (limit : Nat) (l : Line) (s : Source τ) : Outcome (Line × Source τ) Turn :=
  let r := s.replenish
  match _hr : r.result with
  | .error f => ⟨.error f, (l, r.state), r.events⟩
  | .ok 0 => ⟨.ok .dry, (l, r.state), r.events⟩
  | .ok (_ + 1) =>
    let a := l.absorb δ limit r.state.buffer
    let s' := Source.noteUsedUp { r.state with buffer := a.buffer }
    let events := r.events ++ [.taken a.taken]
    match _ha : a.result with
    | .error e => ⟨.ok (.broken e), (a.line, s'), events⟩
    | .ok state =>
      if state = .complete then ⟨.ok .complete, (a.line, s'), events⟩
      else (fill δ limit a.line s').after events
termination_by s.supply
decreasing_by
  rename_i hstate
  have hn := Source.le_available_of_replenish _hr
  have hs := s.supply_replenish_le
  have hz : (l.absorb δ limit s.replenish.state.buffer).buffer.available = 0 := available_absorb_of_ok _ha hstate
  simp only [Source.supply_noteUsedUp]
  simp only [Source.supply] at hs ⊢
  omega

/-- The supply after a turn that has moved bytes into the line. -/
private theorem supply_turn_le (δ : Dialect) (limit : Nat) (l : Line) (s : Source τ) :
    (Source.noteUsedUp { s.replenish.state with
      buffer := (l.absorb δ limit s.replenish.state.buffer).buffer }).supply ≤ s.supply := by
  have hs := s.supply_replenish_le
  have hb := available_absorb_le δ limit l s.replenish.state.buffer
  simp only [Source.supply_noteUsedUp]
  simp only [Source.supply] at hs ⊢
  omega

theorem supply_fill_le (δ : Dialect) (limit : Nat) (l : Line) (s : Source τ) :
    (l.fill δ limit s).state.2.supply ≤ s.supply := by
  fun_induction fill δ limit l s with
  | case1 l s r f hr => exact s.supply_replenish_le
  | case2 l s r hr => exact s.supply_replenish_le
  | case3 l s r n hr a s' events e ha => exact supply_turn_le δ limit l s
  | case4 l s r n hr a s' events ha => exact supply_turn_le δ limit l s
  | case5 l s r n hr a s' events state ha hstate ih =>
    exact Nat.le_trans ih (supply_turn_le δ limit l s)

/-- A line that was not complete at first took at least one byte to become so. -/
theorem supply_fill_lt {δ : Dialect} {limit : Nat} {l : Line} {s : Source τ} (hl : l.state ≠ .complete)
    (h : (l.fill δ limit s).result = .ok .complete) : (l.fill δ limit s).state.2.supply < s.supply := by
  fun_induction fill δ limit l s with
  | case1 l s r f hr => simp at h
  | case2 l s r hr => simp at h
  | case3 l s r n hr a s' events e ha => simp at h
  | case4 l s r n hr a s' events ha =>
    have hn := Source.le_available_of_replenish hr
    have hs := s.supply_replenish_le
    have hb : a.buffer.available < r.state.buffer.available :=
      available_absorb_lt hl (Nat.lt_of_lt_of_le (Nat.succ_pos _) hn)
    simp only [s', a, r, Source.supply_noteUsedUp] at hb ⊢
    simp only [Source.supply] at hs ⊢
    omega
  | case5 l s r n hr a s' events state ha hstate ih =>
    have hn := Source.le_available_of_replenish hr
    have hs := s.supply_replenish_le
    have hz := available_absorb_of_ok ha hstate
    have := supply_fill_le δ limit a.line s'
    simp only [Outcome.state_after, s', a, r, Source.supply_noteUsedUp] at this hz ⊢
    simp only [Source.supply] at this hs ⊢
    omega

end Line

end ChunkedTransfer
