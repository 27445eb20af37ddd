import ChunkedTransfer.Proofs.Agreement
import ChunkedTransfer.Proofs.Conservation

/-!
# Stalls

A source that can hold bytes gives none only if it has none, and if the transport has come to its end or has
answered last with a fault (`Source.Starves`). This goes up through the lines to the decoder: a read with room hands
over payload, or is at the end of the body, or has failed, or its source starves (`explained_advance`).
-/

namespace ChunkedTransfer

namespace Source

variable {τ : Type}

/-- The buffer was cleared, and the flag says that it waits for bytes. -/
structure Rests (s : Source τ) : Prop where
  flag_eq : s.flag = .filling
  clear_eq : s.buffer.clear = s.buffer

theorem Rests.data_eq_nil {s : Source τ} (h : s.Rests) : s.buffer.data = [] := by
  rw [← h.clear_eq, Buffer.data_clear]

theorem Rests.available_eq_zero {s : Source τ} (h : s.Rests) : s.available = 0 := by
  rw [available, h.flag_eq]

private theorem Rests.recycle_eq {s : Source τ} (h : s.Rests) : s.recycle = s := by
  have hw : s.buffer.wastesRoom = false := by
    rw [← h.clear_eq]
    simp [Buffer.wastesRoom, Buffer.clear]
  simp [recycle, hw]

private theorem rests_clear (s : Source τ) : Rests { s with flag := .filling, buffer := s.buffer.clear } := ⟨rfl, rfl⟩

/-- A source that has nothing to give, and what came of asking it: a fault, or merely nothing. -/
inductive Starves (s : Source τ) (es : List Event) : Except Fault Unit → Prop
  | blocked {f : Fault} (hs : s.Rests) (hx : s.exhausted = false) (hl : lastReply es = some (.fault f))
      (hk : f.kind = .wouldBlock) : Starves s es (.ok ())
  | exhausted (hs : s.Rests) (hx : s.exhausted = true) : Starves s es (.ok ())
  | faulted {f : Fault} (hs : s.Rests) (hx : s.exhausted = false) (hl : lastReply es = some (.fault f))
      (hk : f.kind ≠ .wouldBlock) : Starves s es (.error f)

theorem Starves.rests {s : Source τ} {es : List Event} {result : Except Fault Unit} (h : s.Starves es result) :
    s.Rests := by
  cases h <;> assumption

/-- Why a source starves does not depend on what was done before. -/
private theorem Starves.after {s : Source τ} {es : List Event} {result : Except Fault Unit} (h : s.Starves es result)
    (es' : List Event) : s.Starves (es' ++ es) result := by
  cases h with
  | blocked hs hx hl hk => exact .blocked hs hx (lastReply_append hl) hk
  | exhausted hs hx => exact .exhausted hs hx
  | faulted hs hx hl hk => exact .faulted hs hx (lastReply_append hl) hk

/-- What a read reports about itself changes nothing for the decoder. -/
theorem Starves.report {s : Source τ} {es : List Event} {result : Except Fault Unit} (h : s.Starves es result)
    (progress : Except Fault (Progress Nat)) :
    (s.report progress).1.Starves (es ++ (s.report progress).2) result := by
  have hl : lastReply (es ++ (s.report progress).2) = lastReply es := lastReply_append_of_replies (by simp)
  have hrests : (s.report progress).1.Rests := ⟨by simpa using h.rests.flag_eq, by simpa using h.rests.clear_eq⟩
  cases h with
  | blocked _ hx hr hk => exact .blocked hrests (by simpa using hx) (hl.trans hr) hk
  | exhausted _ hx => exact .exhausted hrests (by simpa using hx)
  | faulted _ hx hr hk => exact .faulted hrests (by simpa using hx) (hl.trans hr) hk

variable [Transport τ]

@[simp] theorem capacity_receive (s : Source τ) : s.receive.state.buffer.capacity = s.buffer.capacity := by
  unfold receive
  simp only
  split <;> simp

theorem Trace.capacity_eq {s s' : Source τ} {es : List Event} (h : Trace s es s') :
    s'.buffer.capacity = s.buffer.capacity := by
  induction h with
  | refl s => rfl
  | trans _ _ ih ih' => exact ih'.trans ih
  | recycle s => simp
  | clear => simp
  | receive => simp
  | take s n => simp [Buffer.read]
  | noteUsedUp s => simp
  | markDraining s => rfl
  | report s result => simp
  | log s r => rfl

theorem lastReply_receive (s : Source τ) :
    lastReply s.receive.events = some (Transport.poll s.transport s.buffer.space).reply := by
  rw [lastReply, replies_receive, Polled.replies, List.getLast?_concat]

/-- After an interruption the transport is asked again, so that the last of its answers is none. -/
theorem Trace.not_isInterrupted_of_lastReply {s s' : Source τ} {es : List Event} (h : Trace s es s') {r : Reply}
    (hr : lastReply es = some r) : r.isInterrupted = false := by
  induction h with
  | refl s => simp [lastReply] at hr
  | trans _ _ ih ih' =>
    rw [lastReply, replies_append, List.getLast?_append] at hr
    rcases Option.or_eq_some_iff.1 hr with hr | ⟨-, hr⟩
    · exact ih' hr
    · exact ih hr
  | recycle s => simp [lastReply] at hr
  | clear => simp [lastReply] at hr
  | receive =>
    rw [lastReply_receive, Option.some.injEq] at hr
    rw [← hr]
    exact Transport.not_isInterrupted_poll _ _
  | take s n => simp [lastReply] at hr
  | noteUsedUp s => simp [lastReply] at hr
  | markDraining s => simp [lastReply] at hr
  | report s result => simp [lastReply] at hr
  | log s r => simp [lastReply] at hr

/-- A source without bytes that asks its transport gets some, or starves. -/
private theorem receive_cases {s : Source τ} (hs : s.Rests) (hx : s.exhausted = false) :
    (s.receive.result = .ok true ∧ 0 < s.receive.state.available) ∨
      (s.receive.result = .ok false ∧ s.receive.state.Starves s.receive.events (.ok ())) ∨
      ∃ f, s.receive.result = .error f ∧ s.receive.state.Starves s.receive.events (.error f) := by
  have hl := s.lastReply_receive
  have hdata := s.data_receive
  rw [received_receive, hs.data_eq_nil, List.nil_append] at hdata
  unfold receive at hl hdata ⊢
  simp only at hl hdata ⊢
  split at hl
  · rename_i hp
    simp only [hp, Reply.bytes] at hdata ⊢
    exact .inr (.inl ⟨trivial, .exhausted ⟨hs.flag_eq, hs.clear_eq⟩ rfl⟩)
  · rename_i b bs hp
    simp only [hp, Reply.bytes] at hdata ⊢
    refine .inl ⟨trivial, ?_⟩
    simp only [available]
    rw [← Buffer.length_data, hdata]
    exact Nat.succ_pos _
  · rename_i f hp
    rw [hp] at hl
    by_cases hk : f.kind = .wouldBlock
    · rw [if_pos hk]
      exact .inr (.inl ⟨rfl, .blocked ⟨hs.flag_eq, hs.clear_eq⟩ hx hl hk⟩)
    · rw [if_neg hk]
      exact .inr (.inr ⟨f, rfl, .faulted ⟨hs.flag_eq, hs.clear_eq⟩ hx hl hk⟩)

private theorem receive_of_error {s : Source τ} {f : Fault} (h : s.receive.result = .error f) :
    lastReply s.receive.events = some (.fault f) ∧ f.kind ≠ .wouldBlock := by
  have hl := s.lastReply_receive
  unfold receive at h
  simp only at h
  split at h
  · simp at h
  · simp at h
  · rename_i g hp
    split at h
    · simp at h
    · rename_i hk
      simp only [Except.error.injEq] at h
      subst h
      exact ⟨hl.trans (by rw [hp]), hk⟩

/-- A refill fails because the storage can hold nothing, or because the transport has answered with a fault. -/
theorem refill_of_error_cases {s : Source τ} {f : Fault} (h : s.refill.result = .error f) :
    (s.buffer.capacity = 0 ∧ f = .zeroCapacity) ∨
      lastReply s.refill.events = some (.fault f) ∧ f.kind ≠ .wouldBlock := by
  unfold refill at h ⊢
  split at h
  · simp at h
  · rename_i hx
    split at h
    · rename_i hc
      exact .inl ⟨hc, by simpa using h.symm⟩
    · rename_i hc
      rw [if_neg hx, if_neg hc]
      split at h
      · simp at h
      · rename_i hr
        rw [if_neg hr]
        exact .inr (receive_of_error h)

/-- A source that can hold bytes is refilled without a fault unless the transport has answered with one. -/
theorem refill_of_error {s : Source τ} (hc : 0 < s.buffer.capacity) {f : Fault} (h : s.refill.result = .error f) :
    lastReply s.refill.events = some (.fault f) ∧ f.kind ≠ .wouldBlock := by
  rcases refill_of_error_cases h with ⟨hz, -⟩ | h
  · omega
  · exact h

theorem Rests.refill_eq {s : Source τ} (h : s.Rests) (hx : s.exhausted = false) (hc : 0 < s.buffer.capacity) :
    s.refill = s.receive := by
  have hspace : s.buffer.space = s.buffer.capacity := by
    rw [← h.clear_eq, Buffer.space_clear, Buffer.capacity_clear]
  rw [refill, if_neg (by simp [hx]), if_neg (by omega), h.recycle_eq, if_neg (by omega)]

private theorem replenish_cases {s : Source τ} (hc : 0 < s.buffer.capacity) :
    (∃ n, s.replenish.result = .ok (n + 1)) ∨
      (s.replenish.result = .ok 0 ∧ s.replenish.state.Starves s.replenish.events (.ok ())) ∨
      ∃ f, s.replenish.result = .error f ∧ s.replenish.state.Starves s.replenish.events (.error f) := by
  unfold replenish
  split
  · rename_i ha
    exact .inl ⟨s.available - 1, by rw [Nat.sub_add_cancel ha]⟩
  · have hrests := s.rests_clear
    by_cases hx : s.exhausted = true
    · rw [refill, if_pos hx]
      exact .inr (.inl ⟨rfl, .exhausted hrests hx⟩)
    · -- The buffer was cleared, so that there is room to ask the transport for bytes.
      have hx' : s.exhausted = false := by simpa using hx
      rw [hrests.refill_eq hx' hc]
      rcases receive_cases hrests hx' with ⟨hr, ha⟩ | ⟨hr, hs⟩ | ⟨f, hr, hs⟩
      · rw [Outcome.andThen_of_ok hr]
        exact .inl ⟨_, by simp only [Outcome.result_after, if_pos]; rw [Nat.sub_add_cancel ha]⟩
      · rw [Outcome.andThen_of_ok hr]
        exact .inr (.inl ⟨rfl, by simpa using hs⟩)
      · rw [Outcome.andThen_of_error hr]
        exact .inr (.inr ⟨f, rfl, hs⟩)

private theorem read_cases {s : Source τ} (hc : 0 < s.buffer.capacity) {room : Nat} (hr : 0 < room) :
    (∃ b bs, (s.read room).result = .ok (b :: bs)) ∨
      ((s.read room).result = .ok [] ∧ (s.read room).state.Starves (s.read room).events (.ok ())) ∨
      ∃ f, (s.read room).result = .error f ∧ (s.read room).state.Starves (s.read room).events (.error f) := by
  unfold read
  rw [if_neg (by omega)]
  rcases replenish_cases hc with ⟨n, hn⟩ | ⟨hn, hs⟩ | ⟨f, hn, hs⟩
  · have hle := le_available_of_replenish hn
    rw [Outcome.andThen_of_ok hn, if_neg (by omega)]
    refine .inl ?_
    cases hb : (s.replenish.state.buffer.read room).1 with
    | nil =>
      rw [Buffer.read, List.take_eq_nil_iff, Buffer.data_eq_nil_iff] at hb
      omega
    | cons b bs => exact ⟨b, bs, by simp [hb]⟩
  · rw [Outcome.andThen_of_ok hn, if_pos rfl]
    exact .inr (.inl ⟨rfl, by simpa using hs⟩)
  · rw [Outcome.andThen_of_error hn]
    exact .inr (.inr ⟨f, rfl, hs⟩)

end Source

namespace Line

variable {τ : Type} [Transport τ]

/-- The filling of a line stops before its end only where the source starves. -/
private theorem fill_cases (δ : Dialect) (limit : Nat) (l : Line) {s : Source τ} (hc : 0 < s.buffer.capacity) :
    ((l.fill δ limit s).result = .ok .complete ∨ ∃ e, (l.fill δ limit s).result = .ok (.broken e)) ∨
      ((l.fill δ limit s).result = .ok .dry ∧ (l.fill δ limit s).state.2.Starves (l.fill δ limit s).events (.ok ())) ∨
      ∃ f, (l.fill δ limit s).result = .error f ∧
        (l.fill δ limit s).state.2.Starves (l.fill δ limit s).events (.error f) := by
  fun_induction fill δ limit l s with
  | case1 l s r f hr =>
    rcases Source.replenish_cases hc with ⟨n, hn⟩ | ⟨hn, hs⟩ | ⟨g, hn, hs⟩
    · simp [r, hn] at hr
    · simp [r, hn] at hr
    · obtain rfl : g = f := by simpa [r, hn] using hr
      exact .inr (.inr ⟨g, rfl, hs⟩)
  | case2 l s r hr =>
    rcases Source.replenish_cases hc with ⟨n, hn⟩ | ⟨hn, hs⟩ | ⟨g, hn, hs⟩
    · simp [r, hn] at hr
    · exact .inr (.inl ⟨rfl, hs⟩)
    · simp [r, hn] at hr
  | case3 l s r n hr a s' events e ha => exact .inl (.inr ⟨e, rfl⟩)
  | case4 l s r n hr a s' events ha => exact .inl (.inl rfl)
  | case5 l s r n hr a s' events state ha hstate ih =>
    rw [← (trace_turn δ limit l s).capacity_eq] at hc
    rcases ih hc with h | ⟨h, hs⟩ | ⟨f, h, hs⟩
    · exact .inl h
    · exact .inr (.inl ⟨h, hs.after _⟩)
    · exact .inr (.inr ⟨f, h, hs.after _⟩)

end Line

namespace Decoder

variable {τ : Type}

/-- A decoder that has found its body cut short has no bytes left, and will not get any. -/
def Drained (d : Decoder τ) : Prop :=
  ∀ m p, d.phase = .failed m (.truncated p) → d.source.exhausted = true ∧ d.source.buffer.data = []

/-- What a step into the given room comes to, and why. -/
inductive Explained (room : Nat) (r : StepOutcome τ) : Prop
  | goOn (hr : r.result = .ok none) (hd : r.state.Drained)
  | read {bs : Bytes} (hr : r.result = .ok (some (.read bs))) (hb : 0 < room → bs ≠ [])
      (hp : r.state.phase.marker.IsReading)
  | pending (hr : r.result = .ok (some .pending)) (hp : r.state.phase.marker.IsReading)
      (hs : r.state.source.Starves r.events (.ok ())) (hx : r.state.source.exhausted = false)
  | ended (hr : r.result = .ok (some .ended)) (hp : r.state.phase = .terminated)
  | fault {f : Fault} (hr : r.result = .error f) (hp : r.state.phase.marker.IsReading)
      (hs : r.state.source.Starves r.events (.error f))
  | failed {m : PhaseMarker} {e : FramingError} (hr : r.result = .error (.framing e))
      (hp : r.state.phase = .failed m e) (hd : r.state.Drained)

theorem drained_of_running {d : Decoder τ} (h : d.phase.isFailed = false) : d.Drained := by
  intro m p hp
  rw [hp] at h
  simp [Phase.isFailed] at h

private theorem drained_of_isReading {d : Decoder τ} (h : d.phase.marker.IsReading) : d.Drained := by
  intro m p hp
  rw [hp] at h
  simp [Phase.marker, PhaseMarker.IsReading] at h

theorem Explained.drained {room : Nat} {r : StepOutcome τ} (h : Explained room r) : r.state.Drained := by
  cases h with
  | goOn _ hd => exact hd
  | read _ _ hp => exact drained_of_isReading hp
  | pending _ hp => exact drained_of_isReading hp
  | ended _ hp => exact drained_of_running (by rw [hp]; rfl)
  | fault _ hp => exact drained_of_isReading hp
  | failed _ _ hd => exact hd

private theorem Explained.after {room : Nat} {r : StepOutcome τ} (h : Explained room r) (es : List Event) :
    Explained room (r.after es) := by
  cases h with
  | goOn hr hd => exact .goOn hr hd
  | read hr hb hp => exact .read hr hb hp
  | pending hr hp hs hx => exact .pending hr hp (hs.after es) hx
  | ended hr hp => exact .ended hr hp
  | fault hr hp hs => exact .fault hr hp (hs.after es)
  | failed hr hp hd => exact .failed hr hp hd

theorem Explained.of_pending {room : Nat} {r : StepOutcome τ} (h : Explained room r)
    (hr : r.result = .ok (some .pending)) :
    r.state.phase.marker.IsReading ∧ r.state.source.Starves r.events (.ok ()) ∧ r.state.source.exhausted = false := by
  cases h with
  | pending _ hp hs hx => exact ⟨hp, hs, hx⟩
  | goOn hr' => simp [hr'] at hr
  | read hr' => simp [hr'] at hr
  | ended hr' => simp [hr'] at hr
  | fault hr' => simp [hr'] at hr
  | failed hr' => simp [hr'] at hr

/-- A fault is a framing error that was met, now or before, or else that of the transport. -/
theorem Explained.of_error {room : Nat} {r : StepOutcome τ} (h : Explained room r) {f : Fault}
    (hr : r.result = .error f) :
    (∃ m e, f = .framing e ∧ r.state.phase = .failed m e ∧ r.state.Drained) ∨
      (r.state.phase.marker.IsReading ∧ r.state.source.Starves r.events (.error f)) := by
  cases h with
  | goOn hr' => simp [hr'] at hr
  | read hr' => simp [hr'] at hr
  | pending hr' => simp [hr'] at hr
  | ended hr' => simp [hr'] at hr
  | fault hr' hp hs =>
    obtain rfl : _ = f := by simpa [hr'] using hr
    exact .inr ⟨hp, hs⟩
  | failed hr' hp hd =>
    obtain rfl : _ = f := by simpa [hr'] using hr
    exact .inl ⟨_, _, rfl, hp, hd⟩

private theorem explained_fail (d : Decoder τ) (room : Nat) {e : FramingError} (he : ∀ p, e ≠ .truncated p) :
    Explained room (d.fail e) := by
  refine .failed rfl rfl fun m p hp => absurd ?_ (he p)
  simp only [fail, Phase.fail, Phase.failed.injEq] at hp
  exact hp.2

/-- A stall is the failure of a truncated body if the transport has come to its end, and else a wait for more. -/
private theorem explained_stall {d : Decoder τ} {room : Nat} {es : List Event} (hp : d.phase.marker.IsReading)
    (hs : d.source.Starves es (.ok ())) : Explained room (d.stall.after es) := by
  have ha := hs.rests.available_eq_zero
  unfold stall Source.isExhausted
  rw [ha]
  by_cases hx : d.source.exhausted = true
  · rw [if_pos (by simp [hx])]
    exact .failed rfl rfl fun _ _ _ => ⟨hx, hs.rests.data_eq_nil⟩
  · rw [if_neg (by simp [hx])]
    exact .pending rfl hp (by simpa using hs) (by simpa using hx)

private theorem explained_acceptSizeLine (d : Decoder τ) (room : Nat) : Explained room d.acceptSizeLine := by
  unfold acceptSizeLine
  split
  · rename_i e he
    exact d.explained_fail room (ne_truncated_of_sizeLine he)
  · split
    · exact .goOn rfl (drained_of_running rfl)
    · exact .goOn rfl (drained_of_running rfl)

private theorem explained_acceptTerminator (d : Decoder τ) (room : Nat) : Explained room d.acceptTerminator := by
  unfold acceptTerminator
  split
  · exact .goOn rfl (drained_of_running rfl)
  · exact d.explained_fail room (by simp)

private theorem explained_acceptTrailerLine (δ : Dialect) {d : Decoder τ} (hp : d.phase.isFailed = false) (room : Nat) :
    Explained room (d.acceptTrailerLine δ) := by
  unfold acceptTrailerLine
  split
  · exact .goOn rfl (drained_of_running rfl)
  · exact .goOn rfl (drained_of_running hp)

variable [Transport τ]

private theorem explained_withLine {δ : Dialect} {limit room : Nat} {accept : Decoder τ → StepOutcome τ} {d : Decoder τ}
    (hp : d.phase.marker.IsReading) (ho : d.line.IsOpen) (hc : 0 < d.source.buffer.capacity)
    (ha : ∀ e : Decoder τ, e.phase = d.phase → Explained room (accept e)) :
    Explained room (d.withLine δ limit accept) := by
  have hf := Line.framing_fill δ limit d.source ho
  unfold withLine
  simp only
  rcases Line.fill_cases δ limit d.line hc with (hr | ⟨e, hr⟩) | ⟨hr, hs⟩ | ⟨f, hr, hs⟩
  · simp only [hr]
    refine (ha _ ?_).after _
    rfl
  · simp only [hr] at hf ⊢
    exact (explained_fail _ _ hf.ne_truncated).after _
  · simp only [hr]
    exact explained_stall hp hs
  · simp only [hr]
    exact .fault rfl hp hs

private theorem explained_handOver {d : Decoder τ} (hp : d.phase.marker.IsReading) (hc : 0 < d.source.buffer.capacity)
    (hn : 0 < d.remaining) (room : Nat) : Explained room (d.handOver room) := by
  unfold handOver
  split
  · rename_i hz
    exact .read rfl (fun hr => absurd hz (by omega)) hp
  · have hm : 0 < min room d.remaining.toNat := Nat.lt_min.2 ⟨by omega, UInt64.lt_iff_toNat_lt.1 hn⟩
    simp only
    rcases Source.read_cases hc hm with ⟨b, bs, hr⟩ | ⟨hr, hs⟩ | ⟨f, hr, hs⟩
    · simp only [hr]
      exact .read rfl (by simp) hp
    · simp only [hr]
      exact explained_stall hp hs
    · simp only [hr]
      exact .fault rfl hp hs

/-- A step is explained, if the storage holds at least one byte. -/
private theorem explained_step (δ : Dialect) {d : Decoder τ} {s : Scan} (h : d.Agrees s) (hd : d.Drained)
    (hc : 0 < d.source.buffer.capacity) (room : Nat) : Explained room (d.step δ room) := by
  unfold step
  split
  · rename_i hp
    obtain ⟨-, -, ho, -⟩ := h.stands.of_running (by rw [hp]; rfl)
    exact explained_withLine (by rw [hp]; exact .inl rfl) ho hc fun e _ => e.explained_acceptSizeLine room
  · rename_i hp
    obtain ⟨-, -, ho, -⟩ := h.stands.of_running (by rw [hp]; rfl)
    split
    · rename_i hn
      exact explained_handOver (by rw [hp]; exact .inr (.inl rfl)) hc hn room
    · exact explained_withLine (by rw [hp]; exact .inr (.inl rfl)) ho hc fun e _ => e.explained_acceptTerminator room
  · rename_i hp
    obtain ⟨-, -, ho, -⟩ := h.stands.of_running (by rw [hp]; rfl)
    exact explained_withLine (by rw [hp]; exact .inr (.inr rfl)) ho hc fun e he =>
      e.explained_acceptTrailerLine δ (by rw [he, hp]; rfl) room
  · rename_i hp
    exact .ended rfl hp
  · rename_i m e hp
    exact .failed rfl hp hd

/-- A read is explained, if the storage holds at least one byte. -/
theorem explained_advance (δ : Dialect) (d : Decoder τ) {s : Scan} (room : Nat) (h : d.Agrees s) (hd : d.Drained)
    (hc : 0 < d.source.buffer.capacity) : Explained room ((d.advance δ room).map some) := by
  fun_induction advance δ d room generalizing s with
  | case1 d r f =>
    rename_i he
    show Explained room ⟨.error f, r.state, r.events⟩
    rw [← he]
    exact explained_step δ h hd hc room
  | case2 d r p =>
    rename_i he
    show Explained room ⟨.ok (some p), r.state, r.events⟩
    rw [← he]
    exact explained_step δ h hd hc room
  | case3 d r he =>
    rename_i ih
    have hd' := (explained_step δ h hd hc room).drained
    rw [← (d.trace_step δ room).capacity_eq] at hc
    exact (ih (follows_step δ h room).agrees hd' hc).after _

end Decoder

end ChunkedTransfer
