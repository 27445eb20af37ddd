import ChunkedTransfer.Proofs.Finality
import ChunkedTransfer.Proofs.Resumption

/-!
# Demand

A decoder asks its transport for bytes only if it cannot go on without them: the buffer is used up, the end was not
reported, and the bytes taken so far are neither a complete body nor refused. An answer that brings no bytes, unless
it is an interruption, is the last in its read (`Frugal`). This is seen for the answers of one poll, then for a line
and for a step, and along the steps of a read (`frugal_read`).
-/

namespace ChunkedTransfer

/-- There may be reason to ask again after the answer: it has brought bytes, or it was an interruption. -/
def Reply.GoesOn (r : Reply) : Prop := r.isInterrupted = true ∨ r.bytes ≠ []

private theorem Reply.bytes_of_isInterrupted {r : Reply} (h : r.isInterrupted = true) : r.bytes = [] := by
  cases r with
  | data bs => simp [isInterrupted] at h
  | fault f => rfl

private theorem Reply.GoesOn.ne_ended {r : Reply} (h : r.GoesOn) : r ≠ .ended := by
  rintro rfl
  simp [GoesOn, ended, isInterrupted, bytes] at h

/-- Nothing moves in the event. -/
def Event.IsNote : Event → Prop
  | logged _ | completed => True
  | asked _ _ | taken _ => False

/-- The events of a source that holds the given bytes and is frugal with its transport. It is asked where no bytes are
held and more are wanted after those that were taken, and no more after an answer that does not go on. What is taken
is never empty. -/
inductive Frugal : (Bytes → Prop) → Bytes → List Event → Prop
  | nil {wanted : Bytes → Prop} {held : Bytes} : Frugal wanted held []
  | note {wanted : Bytes → Prop} {held : Bytes} {e : Event} {es : List Event} (he : e.IsNote)
      (h : Frugal wanted held es) : Frugal wanted held (e :: es)
  | asked {wanted : Bytes → Prop} {reply : Reply} {es : List Event} (room : Nat) (hw : wanted [])
      (hgo : replies es = [] ∨ reply.GoesOn) (h : Frugal wanted reply.bytes es) :
      Frugal wanted [] (.asked room reply :: es)
  | taken {wanted : Bytes → Prop} {held bs : Bytes} {es : List Event} (hb : bs ≠ [])
      (h : Frugal (fun cs => wanted (bs ++ cs)) held es) : Frugal wanted (bs ++ held) (.taken bs :: es)

@[simp] theorem replies_cons_asked (room : Nat) (r : Reply) (es : List Event) :
    replies (.asked room r :: es) = r :: replies es := rfl

namespace Event.IsNote

variable {e : Event}

private theorem received_eq (h : e.IsNote) : e.received = [] := by
  cases e <;> simp [IsNote] at h ⊢

theorem consumed_eq (h : e.IsNote) : e.consumed = [] := by
  cases e <;> simp [IsNote] at h ⊢

theorem replies_cons (h : e.IsNote) (es : List Event) : replies (e :: es) = replies es := by
  cases e <;> simp [IsNote] at h <;> rfl

end Event.IsNote

private theorem replies_of_notes {es : List Event} (h : ∀ e ∈ es, e.IsNote) : replies es = [] := by
  induction es with
  | nil => rfl
  | cons e es ih =>
    obtain ⟨he, hes⟩ := List.forall_mem_cons.1 h
    rw [he.replies_cons, ih hes]

namespace Frugal

variable {wanted : Bytes → Prop} {held : Bytes} {es : List Event}

private theorem of_notes (h : ∀ e ∈ es, e.IsNote) : Frugal wanted held es := by
  induction es with
  | nil => exact .nil
  | cons e es ih =>
    obtain ⟨he, hes⟩ := List.forall_mem_cons.1 h
    exact .note he (ih hes)

/-- Frugal events may follow others where the bytes are held that these leave, if the transport is still to be asked
or is not asked again. -/
private theorem append (h : Frugal wanted held es) {rest : Bytes} {es' : List Event}
    (h' : Frugal (fun cs => wanted (consumed es ++ cs)) rest es') (hd : held ++ received es = consumed es ++ rest)
    (hgo : replies es' = [] ∨ ∀ r ∈ replies es, r.GoesOn) : Frugal wanted held (es ++ es') := by
  induction h with
  | nil =>
    obtain rfl : _ = rest := by simpa using hd
    exact h'
  | note he _ ih =>
    rw [consumed_cons, he.consumed_eq, List.nil_append] at h' hd
    rw [received_cons, he.received_eq, List.nil_append] at hd
    rw [he.replies_cons] at hgo
    exact .note he (ih h' hd hgo)
  | @asked wanted reply es room hw hgo' _ ih =>
    have hgo'' : replies (es ++ es') = [] ∨ reply.GoesOn := by
      rw [replies_append]
      rcases hgo with hnone | hall
      · rw [hnone, List.append_nil]
        exact hgo'
      · exact .inr (hall reply (List.mem_cons_self ..))
    exact .asked room hw hgo'' (ih h' (by simpa using hd) (hgo.imp_right fun hall => (List.forall_mem_cons.1 hall).2))
  | @taken wanted held bs es hb _ ih =>
    simp only [consumed_cons, Event.consumed_taken, List.append_assoc] at h' hd
    exact .taken hb (ih h' (by simpa using hd) hgo)

private theorem append_notes (h : Frugal wanted held es) {es' : List Event} (hn : ∀ e ∈ es', e.IsNote) :
    Frugal wanted held (es ++ es') := by
  induction h with
  | nil => exact .of_notes hn
  | note he _ ih => exact .note he ih
  | asked room hw hgo _ ih =>
    refine .asked room hw ?_ ih
    show replies (_ ++ es') = [] ∨ _
    rwa [replies_append, replies_of_notes hn, List.append_nil]
  | taken hb _ ih => exact .taken hb ih

/-- Where the transport is asked. -/
private theorem of_asked (h : Frugal wanted held es) {before after : List Event} {room : Nat} {reply : Reply}
    (he : es = before ++ .asked room reply :: after) :
    held ++ received before = consumed before ∧ wanted (consumed before) ∧ (∀ r ∈ replies before, r.GoesOn) ∧
      (replies after = [] ∨ reply.GoesOn) := by
  induction h generalizing before with
  | nil => simp at he
  | note hn _ ih =>
    cases before with
    | nil =>
      obtain ⟨rfl, -⟩ := by simpa using he
      exact hn.elim
    | cons e before =>
      obtain ⟨rfl, rfl⟩ := by simpa using he
      simpa [hn.replies_cons, hn.received_eq, hn.consumed_eq] using ih rfl
  | asked room' hw hgo _ ih =>
    cases before with
    | nil =>
      obtain ⟨⟨rfl, rfl⟩, rfl⟩ := by simpa using he
      exact ⟨rfl, hw, by simp, hgo⟩
    | cons e before =>
      obtain ⟨rfl, rfl⟩ := by simpa using he
      obtain ⟨hd, hw', hall, hlast⟩ := ih rfl
      refine ⟨by simpa using hd, hw', List.forall_mem_cons.2 ⟨?_, hall⟩, hlast⟩
      exact hgo.resolve_left (by simp)
  | taken hb _ ih =>
    cases before with
    | nil => simp at he
    | cons e before =>
      obtain ⟨rfl, rfl⟩ := by simpa using he
      obtain ⟨hd, hw', hall, hlast⟩ := ih rfl
      exact ⟨by simpa using hd, by simpa using hw', hall, hlast⟩

end Frugal

/-! ### Sources -/

/-- Once the end was reported the transport is not asked again. -/
theorem Source.Trace.replies_of_exhausted {τ : Type} [Transport τ] {s s' : Source τ} {es : List Event}
    (h : Trace s es s') (hx : s.exhausted = true) : replies es = [] := by
  induction h with
  | refl s => rfl
  | trans h _ ih ih' => rw [replies_append, ih hx, ih' (h.exhausted_iff.2 (.inl hx)), List.append_nil]
  | recycle s => rfl
  | clear => rfl
  | receive hx' => simp [hx] at hx'
  | take s n => rfl
  | noteUsedUp s => rfl
  | markDraining s => rfl
  | report s result => exact s.replies_report result
  | log s r => rfl

private theorem Source.Trace.not_exhausted_of_asked {τ : Type} [Transport τ] {s s' : Source τ} {es : List Event}
    (h : Trace s es s') {room : Nat} {reply : Reply} (he : .asked room reply ∈ es) : s.exhausted = false := by
  refine Bool.eq_false_iff.2 fun hx => ?_
  have hmem : reply ∈ replies es := List.mem_filterMap.2 ⟨_, he, rfl⟩
  simp [h.replies_of_exhausted hx] at hmem

private theorem Transport.frugal_poll {τ : Type} [Transport τ] {wanted : Bytes → Prop} (hw : wanted []) (t : τ)
    (room : Nat) (offered : Nat) : Frugal wanted [] ((poll t room).replies.map (Event.asked offered)) := by
  fun_induction poll t room with
  | case1 t r h p ih =>
    refine .asked offered hw (.inr (.inl h)) ?_
    rw [Reply.bytes_of_isInterrupted h]
    exact ih
  | case2 t r h => exact .asked offered hw (.inl rfl) .nil

namespace Source

variable {τ : Type} [Transport τ] {wanted : Bytes → Prop}

private theorem frugal_receive (hw : wanted []) (s : Source τ) : Frugal wanted [] s.receive.events := by
  have h := Transport.frugal_poll hw s.transport s.buffer.space s.buffer.space
  unfold receive
  simp only
  split
  · exact h.append_notes (by simp [Event.IsNote])
  · exact h.append_notes (by simp [Event.IsNote])
  · exact h

private theorem frugal_refill (hw : wanted []) (s : Source τ) : Frugal wanted [] s.refill.events := by
  unfold refill
  split
  · exact .nil
  · split
    · exact .nil
    · split
      · exact .nil
      · exact frugal_receive hw _

private theorem frugal_replenish {s : Source τ} (hs : s.Consistent) (hw : wanted []) :
    Frugal wanted s.buffer.data s.replenish.events := by
  unfold replenish
  split
  · exact .nil
  · rename_i ha
    rw [hs.data_eq_nil (by omega)]
    have h := frugal_refill hw { s with flag := .filling, buffer := s.buffer.clear }
    unfold Outcome.andThen
    split
    · simpa using h
    · exact h

/-- A source that holds bytes does not ask for any. -/
private theorem replies_read_of_available {s : Source τ} (ha : 0 < s.available) (room : Nat) :
    replies (s.read room).events = [] := by
  have hr : s.replenish = ⟨.ok s.available, s, []⟩ := if_pos ha
  unfold read
  split
  · rfl
  · rw [hr, Outcome.andThen_of_ok rfl, if_neg (Nat.ne_of_gt ha)]
    rfl

/-- A transport that was asked with success may be asked again. -/
private theorem goesOn_receive {s : Source τ} (h : s.receive.result = .ok true) :
    ∀ r ∈ replies s.receive.events, r.GoesOn := by
  rw [replies_receive, Polled.replies]
  refine List.forall_mem_append.2
    ⟨fun r hr => .inl (Transport.isInterrupted_of_mem_interruptions _ _ r hr), List.forall_mem_singleton.2 (.inr ?_)⟩
  unfold receive at h
  simp only at h
  split at h
  · simp at h
  · rename_i hp
    simp [hp, Reply.bytes]
  · split at h <;> simp at h

private theorem goesOn_refill {s : Source τ} (h : s.refill.result = .ok true) :
    ∀ r ∈ replies s.refill.events, r.GoesOn := by
  unfold refill at h ⊢
  split at h
  · simp at h
  · rename_i hx
    rw [if_neg hx]
    split at h
    · simp at h
    · rename_i hc
      rw [if_neg hc]
      split at h
      · simp at h
      · rename_i hr
        rw [if_neg hr]
        exact goesOn_receive h

private theorem goesOn_replenish {s : Source τ} {n : Nat} (h : s.replenish.result = .ok (n + 1)) :
    ∀ r ∈ replies s.replenish.events, r.GoesOn := by
  unfold replenish at h ⊢
  split at h
  · rename_i ha
    simp [ha]
  · rename_i ha
    rw [if_neg ha]
    cases hr : (refill { s with flag := .filling, buffer := s.buffer.clear }).result with
    | error f => simp [Outcome.andThen_of_error hr] at h
    | ok refilled =>
      rw [Outcome.andThen_of_ok hr] at h ⊢
      cases refilled with
      | false => simp at h
      | true => simpa using goesOn_refill hr

private theorem frugal_take {s : Source τ} (hs : s.Consistent) (hw : wanted []) {bs held : Bytes} (hb : bs ≠ [])
    (hd : bs ++ held = s.replenish.state.buffer.data) :
    Frugal wanted s.buffer.data (s.replenish.events ++ [.taken bs]) := by
  have htaken :
      Frugal (fun cs => wanted (consumed s.replenish.events ++ cs)) s.replenish.state.buffer.data [.taken bs] := by
    rw [← hd]
    exact .taken hb .nil
  exact (frugal_replenish hs hw).append htaken (s.trace_replenish.conserves hs).2 (.inl rfl)

theorem frugal_read {s : Source τ} (hs : s.Consistent) (hw : wanted []) (room : Nat) :
    Frugal wanted s.buffer.data (s.read room).events := by
  unfold read
  split
  · exact .nil
  · rename_i hz
    cases hr : s.replenish.result with
    | error f =>
      rw [Outcome.andThen_of_error hr]
      exact frugal_replenish hs hw
    | ok n =>
      rw [Outcome.andThen_of_ok hr]
      cases n with
      | zero => simpa using frugal_replenish hs hw
      | succ n =>
        refine frugal_take hs hw ?_ (Buffer.read_append_data _ room)
        simp [Buffer.read, List.take_eq_nil_iff, hz, data_ne_nil_of_replenish hr]

end Source

/-! ### Lines -/

namespace Line

/-- A line that is not complete takes of any data that there is. -/
private theorem taken_absorb_ne_nil (δ : Dialect) (limit : Nat) {l : Line} (hl : l.state ≠ .complete) {b : Buffer}
    (hd : b.data ≠ []) : (l.absorb δ limit b).taken ≠ [] := by
  rcases lineFeed_cases b.data with hb | ⟨front, rest, hf, hd'⟩
  · rwa [absorb_of_no_lineFeed hl hb]
  · simp [absorb_of_lineFeed hl hf hd']

variable {τ : Type} [Transport τ] {wanted : Bytes → Prop}

private theorem frugal_turn (δ : Dialect) (limit : Nat) {l : Line} {s : Source τ} (ho : l.IsOpen) (hs : s.Consistent)
    (hw : wanted []) {n : Nat} (hr : s.replenish.result = .ok (n + 1)) :
    Frugal wanted s.buffer.data (turnEvents δ limit l s) := by
  have hread := Buffer.read_append_data s.replenish.state.buffer
    (l.absorb δ limit s.replenish.state.buffer).taken.length
  rw [read_absorb] at hread
  exact Source.frugal_take hs hw
    (taken_absorb_ne_nil δ limit ho.state_ne_complete (Source.data_ne_nil_of_replenish hr)) hread

/-- A line is filled frugally, if bytes are wanted wherever it is still open. -/
private theorem frugal_fill (δ : Dialect) (limit : Nat) {l : Line} {s : Source τ} (ho : l.IsOpen) (hs : s.Consistent)
    (hw : ∀ bs l', Framing δ limit l.content bs l' .dry → wanted bs) :
    Frugal wanted s.buffer.data (l.fill δ limit s).events := by
  have hnil {l : Line} {wanted : Bytes → Prop} (ho : l.IsOpen)
      (hw : ∀ bs l', Framing δ limit l.content bs l' .dry → wanted bs) : wanted [] := hw [] l (.refl δ limit ho)
  fun_induction fill δ limit l s generalizing wanted with
  | case1 l s r f =>
    exact Source.frugal_replenish hs (hnil ho hw)
  | case2 l s r =>
    exact Source.frugal_replenish hs (hnil ho hw)
  | case3 l s r n hr a s' events e =>
    exact frugal_turn δ limit ho hs (hnil ho hw) hr
  | case4 l s r n hr a s' events =>
    exact frugal_turn δ limit ho hs (hnil ho hw) hr
  | case5 l s r n hr a s' events state ha hstate =>
    rename_i ih
    have hframe : Framing δ limit l.content a.taken a.line (turnOf a.result) :=
      framing_absorb δ limit ho (Source.data_ne_nil_of_replenish hr)
    rw [ha, turnOf_of_ne_complete hstate] at hframe
    obtain ⟨hs', hd⟩ := (trace_turn δ limit l s).conserves hs
    have hconsumed : consumed (turnEvents δ limit l s) = a.taken := by simp [turnEvents, a, r]
    have hgo : ∀ r ∈ replies (turnEvents δ limit l s), r.GoesOn := by
      simpa [turnEvents] using Source.goesOn_replenish hr
    refine (frugal_turn δ limit ho hs (hnil ho hw) hr).append (ih hframe.isOpen hs' fun bs l' h => ?_) hd (.inr hgo)
    rw [hconsumed]
    exact hw _ l' (hframe.trans h)

private theorem goesOn_fill {δ : Dialect} {limit : Nat} {l : Line} {s : Source τ}
    (h : (l.fill δ limit s).result = .ok .complete) : ∀ r ∈ replies (l.fill δ limit s).events, r.GoesOn := by
  have hturn {l : Line} {s : Source τ} {n : Nat} (hr : s.replenish.result = .ok (n + 1)) :
      ∀ r ∈ replies (turnEvents δ limit l s), r.GoesOn := by
    simpa [turnEvents] using Source.goesOn_replenish hr
  fun_induction fill δ limit l s with
  | case1 l s r f hr => simp at h
  | case2 l s r hr => simp at h
  | case3 l s r n hr a s' events e ha => simp at h
  | case4 l s r n hr a s' events ha => exact hturn hr
  | case5 l s r n hr a s' events state ha hstate ih =>
    rw [Outcome.events_after, replies_append]
    exact List.forall_mem_append.2 ⟨hturn hr, ih h⟩

end Line

/-! ### Steps -/

/-- Bytes that follow may belong to the body: it is not complete, and no byte was refused. -/
def Scan.Wants (s : Scan) : Prop := s.rejected = false ∧ s.phase ≠ .terminated

private theorem Scan.wants_of_isReading {s : Scan} (hr : s.rejected = false) (hm : s.phase.IsReading) : s.Wants :=
  ⟨hr, by rcases hm with hm | hm | hm <;> simp [hm]⟩

namespace Decoder

variable {τ α : Type}

private theorem notes_fail (d : Decoder τ) (e : FramingError) :
    ∀ ev ∈ (d.fail e : Outcome (Decoder τ) α).events, ev.IsNote := by
  simp [fail, Event.IsNote]

private theorem notes_stall (d : Decoder τ) : ∀ ev ∈ d.stall.events, ev.IsNote := by
  unfold stall
  split
  · exact d.notes_fail _
  · simp

private theorem notes_acceptSizeLine (d : Decoder τ) : ∀ ev ∈ d.acceptSizeLine.events, ev.IsNote := by
  unfold acceptSizeLine
  split
  · exact d.notes_fail _
  · split <;> simp [Event.IsNote]

private theorem notes_acceptTerminator (d : Decoder τ) : ∀ ev ∈ d.acceptTerminator.events, ev.IsNote := by
  unfold acceptTerminator
  split
  · simp
  · exact d.notes_fail _

private theorem notes_acceptTrailerLine (δ : Dialect) (d : Decoder τ) :
    ∀ ev ∈ (d.acceptTrailerLine δ).events, ev.IsNote := by
  unfold acceptTrailerLine
  split <;> simp [Event.IsNote]

private theorem notes_report (s : Source τ) (result : Except Fault (Progress Nat)) :
    ∀ ev ∈ (s.report result).2, ev.IsNote := by
  unfold Source.report
  split
  · split <;> simp [Event.IsNote]
  · simp [Event.IsNote]
  · simp [Event.IsNote]

variable [Transport τ] {wanted : Bytes → Prop}

private theorem frugal_withLine (δ : Dialect) (limit : Nat) {accept : Decoder τ → StepOutcome τ} {d : Decoder τ}
    (ho : d.line.IsOpen) (hs : d.source.Consistent)
    (hw : ∀ bs l, Line.Framing δ limit d.line.content bs l .dry → wanted bs)
    (ha : ∀ e : Decoder τ, ∀ ev ∈ (accept e).events, ev.IsNote) :
    Frugal wanted d.source.buffer.data (d.withLine δ limit accept).events := by
  have hf := Line.frugal_fill δ limit ho hs hw
  unfold withLine
  simp only
  split
  · exact hf
  · exact hf.append_notes (notes_stall _)
  · exact hf.append_notes (notes_fail _ _)
  · exact hf.append_notes (ha _)

private theorem frugal_handOver {d : Decoder τ} (hs : d.source.Consistent) (hw : wanted []) (room : Nat) :
    Frugal wanted d.source.buffer.data (d.handOver room).events := by
  have hf := Source.frugal_read hs hw (min room d.remaining.toNat)
  unfold handOver
  split
  · exact .nil
  · simp only
    split
    · exact hf
    · exact hf.append_notes (notes_stall _)
    · exact hf

/-- A step asks for bytes only where the body wants them. -/
private theorem frugal_step (δ : Dialect) {d : Decoder τ} {s : Scan} (h : d.Agrees s) (hs : d.source.Consistent)
    (room : Nat) : Frugal (fun bs => (s.feed δ d.limits bs).Wants) d.source.buffer.data (d.step δ room).events := by
  -- Where a line is read, bytes that leave it open leave the scan in its phase.
  have hline {limit : Nat} {accept : Scan → Bytes → Scan} (hp : d.phase.isFailed = false) (hm : s.phase.IsReading)
      (hreads : s.ReadsLine δ d.limits limit accept) :
      ∀ bs l, Line.Framing δ limit d.line.content bs l .dry → (s.feed δ d.limits bs).Wants := by
    intro bs l hf
    obtain ⟨hr, -, -, hl⟩ := h.stands.of_running hp
    rw [hreads.feed_of_framing (by rwa [hl])]
    exact Scan.wants_of_isReading (s := { s with line := l.content }) hr hm
  unfold step
  split
  · rename_i hp
    have hf : d.phase.isFailed = false := by rw [hp]; rfl
    obtain ⟨hr, hm, ho, -⟩ := h.stands.of_running hf
    rw [hp] at hm
    exact frugal_withLine δ _ ho hs (hline hf (.inl hm) (Scan.readsLine_size hr hm)) notes_acceptSizeLine
  · rename_i hp
    have hf : d.phase.isFailed = false := by rw [hp]; rfl
    obtain ⟨hr, hm, ho, -⟩ := h.stands.of_running hf
    rw [hp] at hm
    split
    · exact frugal_handOver hs (Scan.wants_of_isReading hr (.inr (.inl hm))) room
    · rename_i hz
      have hz' : s.remaining = 0 := by
        rw [← h.remaining]
        simpa [UInt64.lt_iff_toNat_lt] using hz
      exact frugal_withLine δ _ ho hs (hline hf (.inr (.inl hm)) (Scan.readsLine_terminator hr hm hz'))
        notes_acceptTerminator
  · rename_i hp
    have hf : d.phase.isFailed = false := by rw [hp]; rfl
    obtain ⟨hr, hm, ho, -⟩ := h.stands.of_running hf
    rw [hp] at hm
    exact frugal_withLine δ _ ho hs (hline hf (.inr (.inr hm)) (Scan.readsLine_trailers hr hm))
      (notes_acceptTrailerLine δ)
  · exact .nil
  · exact .nil

private theorem goesOn_withLine {δ : Dialect} {limit : Nat} {accept : Decoder τ → StepOutcome τ} {d : Decoder τ}
    (ha : ∀ e : Decoder τ, ∀ ev ∈ (accept e).events, ev.IsNote) (h : (d.withLine δ limit accept).result = .ok none) :
    ∀ r ∈ replies (d.withLine δ limit accept).events, r.GoesOn := by
  obtain ⟨hr, -, he⟩ := withLine_of_none h
  rw [he, Outcome.events_after, replies_append, replies_of_notes (ha _), List.append_nil]
  exact Line.goesOn_fill hr

/-- Payload is handed over, or there is a reason why not. -/
theorem handOver_ne_none (d : Decoder τ) (room : Nat) : (d.handOver room).result ≠ .ok none := by
  unfold handOver
  split
  · simp
  · simp only
    split
    · simp
    · simp only [Outcome.result_after, stall]
      split <;> simp [fail]
    · simp

/-- A step without an answer has got what it has asked for. -/
private theorem goesOn_step {δ : Dialect} {d : Decoder τ} {room : Nat} (h : (d.step δ room).result = .ok none) :
    ∀ r ∈ replies (d.step δ room).events, r.GoesOn := by
  unfold step at h ⊢
  split at h
  · exact goesOn_withLine notes_acceptSizeLine h
  · split at h
    · exact absurd h (d.handOver_ne_none room)
    · rename_i hz
      rw [if_neg hz]
      exact goesOn_withLine notes_acceptTerminator h
  · exact goesOn_withLine (notes_acceptTrailerLine δ) h
  · simp at h
  · simp at h

/-! ### Reads -/

private theorem frugal_advance (δ : Dialect) (d : Decoder τ) (room : Nat) {s : Scan} (h : d.Agrees s)
    (hs : d.source.Consistent) :
    Frugal (fun bs => (s.feed δ d.limits bs).Wants) d.source.buffer.data (d.advance δ room).events := by
  fun_induction advance δ d room generalizing s with
  | case1 d r f => exact frugal_step δ h hs room
  | case2 d r p => exact frugal_step δ h hs room
  | case3 d r hr =>
    rename_i ih
    have hf := follows_step δ h room
    obtain ⟨hs', hd⟩ := (d.trace_step δ room).conserves hs
    have hrest := ih hf.agrees hs'
    rw [hf.limits_eq] at hrest
    refine (frugal_step δ h hs room).append ?_ hd (.inr (goesOn_step hr))
    simpa only [Scan.feed_append] using hrest

theorem frugal_read (δ : Dialect) {d : Decoder τ} {s : Scan} (h : d.Agrees s) (hs : d.source.Consistent) (room : Nat) :
    Frugal (fun bs => (s.feed δ d.limits bs).Wants) d.source.buffer.data (d.read δ room).events :=
  (frugal_advance δ d room h hs).append_notes (notes_report _ _)

theorem replies_handOver {d : Decoder τ} (hs : d.source.Consistent) {room : Nat}
    (h : room = 0 ∨ d.source.buffer.data ≠ []) : replies (d.handOver room).events = [] := by
  have hread : room ≠ 0 → replies (d.source.read (min room d.remaining.toNat)).events = [] := by
    intro hz
    refine Source.replies_read_of_available (Nat.pos_of_ne_zero fun ha => ?_) _
    exact h.resolve_left hz (hs.data_eq_nil ha)
  unfold handOver
  split
  · rfl
  · rename_i hz
    simp only
    split
    · exact hread hz
    · rw [Outcome.events_after, replies_append, replies_of_notes (notes_stall _), hread hz, List.append_nil]
    · exact hread hz

/-- Payload that lies in the buffer is handed over as it is, and nothing is needed where there is no room for it. -/
private theorem replies_read_of_remaining (δ : Dialect) {d : Decoder τ} (hc : d.Coherent) (hs : d.source.Consistent)
    (hr : 0 < d.remaining) {room : Nat} (h : room = 0 ∨ d.source.buffer.data ≠ []) :
    replies (d.read δ room).events = [] := by
  have hphase : d.phase = .data ∨ ∃ m e, d.phase = .failed m e := by
    cases hc with
    | payload hp => exact .inl hp
    | terminator hp => exact .inl hp
    | failed hp => exact .inr ⟨_, _, hp⟩
    | size _ hz => simp [hz] at hr
    | trailers _ hz => simp [hz] at hr
    | terminated _ hz => simp [hz] at hr
  rcases hphase with hp | ⟨m, e, hp⟩
  · have hstep : d.step δ room = d.handOver room := by rw [step, hp]; exact if_pos hr
    have hadvance : (d.advance δ room).events = (d.handOver room).events := by
      rw [← hstep]
      cases hres : (d.step δ room).result with
      | error f => rw [advance_of_error hres]
      | ok answer =>
        cases answer with
        | none => exact absurd (hstep ▸ hres) (d.handOver_ne_none room)
        | some p => rw [advance_of_answer hres]
    rw [read, replies_append, replies_of_notes (notes_report _ _), hadvance, replies_handOver hs h, List.append_nil]
  · rw [read_of_failed δ hp]
    rfl

private theorem eventsOf_run_read (δ : Dialect) (d : Decoder τ) (ops : List Operation) (room : Nat)
    (later : List Operation) :
    eventsOf (d.run δ (ops ++ .read room :: later)) =
      eventsOf (d.run δ ops) ++ (((d.finish δ ops).read δ room).events ++
        eventsOf (((d.finish δ ops).read δ room).state.run δ later)) := by
  rw [run_append, run_cons, eventsOf_append, eventsOf_cons]
  rfl

/-- A run that tells the end has taken bytes wherever the body still wanted some. -/
private theorem consumed_ne_nil_of_ended {δ : Dialect} {d : Decoder τ} {s : Scan} (h : d.Agrees s)
    {ops : List Operation} (ho : ∀ op ∈ ops, op.IsReading) {r : Outcome (Decoder τ) Answer} (hr : r ∈ d.run δ ops)
    (hres : r.result = .ok (.progress .ended)) {past rest : List Event} (he : eventsOf (d.run δ ops) = past ++ rest)
    (hw : (s.feed δ d.limits (consumed past)).Wants) : consumed rest ≠ [] := by
  intro hnil
  have hend := (follows_run δ h ho).1.of_terminated (phase_finish_of_ended ho hr hres)
  rw [he, consumed_append, hnil, List.append_nil] at hend
  exact hw.2 hend.2

/-- No read asks for more than it needs. Let there be decoders on a source, and let the last of them be read, and the
source be refilled, at any times. Whenever a read asks the transport, it has used up what was in the buffer, what the
source has received before included, the transport has not reported its end, and the body that was begun needs more
bytes. It asks again only if the answer was an interruption or has brought bytes. It does not ask at all if payload
lies in the buffer, or if there is payload but no room for it. So if the end of the body is told later on, then the
bytes obtained up to the question were not yet all of the body. No question is missing from the events: the transport is
where the answers among them leave it, before the read and after it. -/
theorem no_overreading (δ : Dialect) (limits₀ limits : Limits) (b : Buffer) (t : τ) (earlier : List Operation)
    {ops : List Operation} (ho : ∀ op ∈ ops, op.IsReading) (room : Nat) :
    let first := ofSource (.ofBuffer b t) limits₀
    let start := (first.finish δ earlier).next limits
    let d := start.finish δ ops
    Transport.Reads t (replies (eventsOf (first.run δ earlier) ++ eventsOf (start.run δ ops))) d.source.transport ∧
      Transport.Reads d.source.transport (replies (d.read δ room).events) (d.read δ room).state.source.transport ∧
      (0 < d.remaining → room = 0 ∨ d.source.buffer.data ≠ [] → replies (d.read δ room).events = []) ∧
      ∀ before offered reply after, (d.read δ room).events = before ++ .asked offered reply :: after →
        let past := eventsOf (start.run δ ops) ++ before
        d.source.buffer.data ++ received before = consumed before ∧
          .ended ∉ replies (eventsOf (first.run δ earlier) ++ past) ∧
          (Scan.feed δ limits {} (consumed past)).Wants ∧
          (replies after = [] ∨ reply.GoesOn) ∧
          ∀ later, (∀ op ∈ later, op.IsReading) →
            (∃ r ∈ start.run δ (ops ++ .read room :: later), r.result = .ok (.progress .ended)) →
            ∃ rest, rest ≠ [] ∧ start.source.buffer.data ++ received past ++ rest =
              consumed (eventsOf (start.run δ (ops ++ .read room :: later))) := by
  intro first start d
  have hbefore := (first.trace_run δ earlier).trans (start.trace_run δ ops)
  have hstart : start.source.Consistent :=
    ((first.trace_run δ earlier).conserves (Source.consistent_ofBuffer b t)).1
  obtain ⟨hs, hconserved⟩ := (start.trace_run δ ops).conserves hstart
  have hagrees : d.Agrees (Scan.feed δ limits {} (consumed (eventsOf (start.run δ ops)))) :=
    (follows_run δ (agrees_ofSource _ _) ho).1
  have hlimits : d.limits = limits := limits_finish δ (agrees_ofSource _ _) ho
  refine ⟨hbefore.reads, (d.trace_read δ room).reads, ?_, ?_⟩
  · intro hr h
    exact replies_read_of_remaining δ ((coherent_ofSource _ _).finish δ ops) hs hr h
  · intro before offered reply after he past
    obtain ⟨hd, hw, hall, hlast⟩ := (frugal_read δ hagrees hs room).of_asked he
    rw [hlimits, ← Scan.feed_append, ← consumed_append] at hw
    refine ⟨hd, ?_, hw, hlast, ?_⟩
    · -- The source would have noted the end, and would not ask after it.
      have hx : d.source.exhausted = false :=
        (d.trace_read δ room).not_exhausted_of_asked (he ▸ List.mem_append_cons_self)
      have hnone : .ended ∉ replies (eventsOf (first.run δ earlier) ++ eventsOf (start.run δ ops)) := fun hmem => by
        exact Bool.eq_false_iff.1 hx (hbefore.exhausted_iff.2 (.inr hmem))
      rw [← List.append_assoc, replies_append, List.mem_append, not_or]
      exact ⟨hnone, fun hmem => (hall _ hmem).ne_ended rfl⟩
    · rintro later hl ⟨r, hr, hres⟩
      have hops : ∀ op ∈ ops ++ .read room :: later, op.IsReading :=
        List.forall_mem_append.2 ⟨ho, List.forall_mem_cons.2 ⟨.inl ⟨room, rfl⟩, hl⟩⟩
      have htaken : start.source.buffer.data ++ received past = consumed past := by
        rw [received_append, consumed_append, ← List.append_assoc, hconserved, List.append_assoc, hd]
      have hevents : eventsOf (start.run δ (ops ++ .read room :: later)) =
          past ++ (.asked offered reply :: (after ++ eventsOf ((d.read δ room).state.run δ later))) := by
        rw [eventsOf_run_read, he]
        simp [past, d]
      refine ⟨_, consumed_ne_nil_of_ended (agrees_ofSource _ _) hops hr hres hevents hw, ?_⟩
      rw [htaken, hevents]
      exact (consumed_append _ _).symm

/-- The first bytes of a body lie in the buffer, and the rest comes in two pieces behind a gap. When the second read
asks for the last piece, it has used up all that came before, and the end of the body is still to come. -/
theorem no_overreading_of_empty_body :
    let t : Fragments := ⟨[.gap, .fragment 10 [], .fragment 13 [10, 97, 98]], false⟩
    let start := ofSource (.ofBuffer (.withReceived (48 :: 13 :: List.replicate 14 0) 2) t) {}
    (Scan.feed .strict {} {} [48, 13, 10]).Wants ∧
      ∃ rest, rest ≠ [] ∧ [48, 13, 10] ++ rest = consumed (eventsOf (start.run .strict [.read 4, .read 4])) := by
  intro t start
  let before : List Event :=
    [.asked 16 (.data [10]), .logged (.refilled 1), .taken [10], .logged .lastChunk]
  let after : List Event :=
    [.logged (.refilled 4), .taken [13, 10], .logged (.chunkedBodyTerminated 0 0), .logged .streamEnded, .completed]
  obtain ⟨-, -, -, hasked⟩ := no_overreading .strict {} {} (.withReceived (48 :: 13 :: List.replicate 14 0) 2) t []
    (show ∀ op ∈ [Operation.read 4], op.IsReading by decide) 4
  obtain ⟨-, -, hw, -, hrest⟩ := hasked before 16 (.data [13, 10, 97, 98]) after (by decide +kernel)
  have htaken : consumed (eventsOf (start.run .strict [.read 4]) ++ before) = [48, 13, 10] := by decide +kernel
  have hobtained : start.source.buffer.data ++ received (eventsOf (start.run .strict [.read 4]) ++ before) =
      [48, 13, 10] := by decide +kernel
  constructor
  · rw [← htaken]
    exact hw
  · rw [← hobtained]
    exact hrest [] (by simp) (by decide +kernel)

end Decoder

end ChunkedTransfer
