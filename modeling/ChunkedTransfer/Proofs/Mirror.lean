import ChunkedTransfer.Proofs.Resumption

/-!
# Calm transports

A transport may be replaced by a calm one, which is never interrupted, and blocks where the other one fails
(`Transport.Calms`). Whatever is done with a source or a decoder then leaves the same state, but for the transport, and
gives the same result, but for a fault of the transport: where that comes out, the calm twin has merely nothing to give
(`Mirrors`). So a fault finds nothing half done, wherever it is met: in the middle of a line, between two lines or in
the payload of a chunk. Nor is one kept back: an operation that gives a result as its twin does has met no failure
(`failures`).
-/

namespace ChunkedTransfer

/-- The answer of a transport that blocks instead of failing. -/
def Reply.calmed : Reply → Reply
  | data bs => data bs
  | fault _ => fault .wouldBlock

/-- The failure in an answer. A blocked read is none, and neither is an interruption. -/
def Reply.failure? : Reply → Option Fault
  | data _ => none
  | fault f => if f.kind = .wouldBlock ∨ f.kind = .interrupted then none else some f

private theorem Reply.failure?_eq_some_iff {r : Reply} {f : Fault} :
    r.failure? = some f ↔ r = fault f ∧ f.kind ≠ .wouldBlock ∧ f.kind ≠ .interrupted := by
  cases r with
  | data bs => simp [failure?]
  | fault g =>
    simp only [failure?, Option.ite_none_left_eq_some, Option.some.injEq, fault.injEq, not_or]
    constructor
    · rintro ⟨hk, rfl⟩
      exact ⟨rfl, hk⟩
    · rintro ⟨rfl, hk⟩
      exact ⟨hk, rfl⟩

/-- The failures among the answers of the transport. -/
def failures (es : List Event) : List Fault := (replies es).filterMap Reply.failure?

@[simp] theorem failures_append (es es' : List Event) : failures (es ++ es') = failures es ++ failures es' := by
  simp [failures]

private theorem failures_of_replies {es : List Event} (h : replies es = []) : failures es = [] := by
  rw [failures, h, List.filterMap_nil]

theorem mem_failures_iff {es : List Event} {f : Fault} :
    f ∈ failures es ↔ .fault f ∈ replies es ∧ f.kind ≠ .wouldBlock ∧ f.kind ≠ .interrupted := by
  simp only [failures, List.mem_filterMap, Reply.failure?_eq_some_iff]
  constructor
  · rintro ⟨r, hr, rfl, hk⟩
    exact ⟨hr, hk⟩
  · rintro ⟨hr, hk⟩
    exact ⟨_, hr, rfl, hk⟩

/-- The transport `calm t` answers as `t` does, but without interruptions, and it blocks where `t` fails. -/
def Transport.Calms {τ τ' : Type} [Transport τ] [Transport τ'] (calm : τ → τ') : Prop :=
  ∀ t room, poll (calm t) room = ⟨[], (poll t room).reply.calmed, calm (poll t room).transport⟩

namespace Source

variable {τ τ' : Type}

/-- The source with another transport in place of its own. -/
def mapTransport (f : τ → τ') (s : Source τ) : Source τ' where
  buffer := s.buffer
  flag := s.flag
  transport := f s.transport
  exhausted := s.exhausted
  announced := s.announced

private theorem recycle_mapTransport (f : τ → τ') (s : Source τ) :
    (s.mapTransport f).recycle = s.recycle.mapTransport f := by
  unfold recycle mapTransport
  simp only
  split <;> rfl

private theorem noteUsedUp_mapTransport (f : τ → τ') (s : Source τ) :
    (s.mapTransport f).noteUsedUp = s.noteUsedUp.mapTransport f := by
  unfold noteUsedUp mapTransport
  simp only
  split <;> rfl

private theorem report_mapTransport (f : τ → τ') (s : Source τ) (result : Except Fault (Progress Nat)) :
    ((s.mapTransport f).report result).1 = (s.report result).1.mapTransport f := by
  unfold report
  split
  · unfold mapTransport
    simp only
    split <;> rfl
  · rfl
  · rfl

/-- A failure of the transport comes out. It is the only one among the answers of the transport, and the last of
them, and the transport is not at its end. -/
structure Surfaces (s : Source τ) (es : List Event) (f : Fault) : Prop where
  not_exhausted : s.exhausted = false
  lastReply_eq : lastReply es = some (.fault f)
  failures_eq : failures es = [f]

theorem Surfaces.kind_ne {s : Source τ} {es : List Event} {f : Fault} (h : s.Surfaces es f) :
    f.kind ≠ .wouldBlock ∧ f.kind ≠ .interrupted :=
  (mem_failures_iff.1 (by rw [h.failures_eq]; exact List.mem_singleton_self f)).2

private theorem Surfaces.after {s : Source τ} {es es' : List Event} {f : Fault} (h : s.Surfaces es f)
    (hn : failures es' = []) : s.Surfaces (es' ++ es) f :=
  ⟨h.not_exhausted, lastReply_append h.lastReply_eq, by rw [failures_append, hn, h.failures_eq, List.nil_append]⟩

end Source

/-- The outcome `r'` is that of the calm twin: it leaves the same state and gives the same result, unless the transport
failed under `r`. Then the failure comes out of `r`, and `r'` gives what is given when there is nothing to give. -/
inductive Mirrors {τ σ σ' α : Type} (source : σ → Source τ) (calm : σ → σ') (idle : α) (r : Outcome σ α)
    (r' : Outcome σ' α) : Prop
  | same (hs : r'.state = calm r.state) (hr : r'.result = r.result) (hn : failures r.events = [])
  | surfaced {f : Fault} (hs : r'.state = calm r.state) (hf : (source r.state).Surfaces r.events f)
      (hr : r.result = .error f) (hr' : r'.result = .ok idle)

namespace Mirrors

variable {τ σ σ' α β : Type} {source : σ → Source τ} {calm : σ → σ'} {idle : α} {r : Outcome σ α} {r' : Outcome σ' α}

private theorem state_eq (h : Mirrors source calm idle r r') : r'.state = calm r.state := by
  cases h <;> assumption

private theorem after (h : Mirrors source calm idle r r') {es : List Event} (hn : failures es = []) (es' : List Event) :
    Mirrors source calm idle (r.after es) (r'.after es') := by
  cases h with
  | same hs hr hn' => exact .same hs hr (by rw [Outcome.events_after, failures_append, hn, hn', List.nil_append])
  | surfaced hs hf hr hr' => exact .surfaced hs (hf.after hn) hr hr'

private theorem map (h : Mirrors source calm idle r r') (f : α → β) :
    Mirrors source calm (f idle) (r.map f) (r'.map f) := by
  cases h with
  | same hs hr hn => exact .same hs (by simp [Outcome.map, hr]) hn
  | surfaced hs hf hr hr' => exact .surfaced hs hf (Outcome.result_map_of_error hr f) (Outcome.result_map_of_ok hr' f)

/-- What goes on with a value may do so in the twin if it makes nothing of the idle value. -/
private theorem andThen (h : Mirrors source calm idle r r') {idle' : β} {f : α → σ → Outcome σ β}
    {f' : α → σ' → Outcome σ' β} (hf : ∀ a, Mirrors source calm idle' (f a r.state) (f' a (calm r.state)))
    (hidle : f' idle (calm r.state) = ⟨.ok idle', calm r.state, []⟩) :
    Mirrors source calm idle' (r.andThen f) (r'.andThen f') := by
  cases h with
  | same hs hr hn =>
    cases hq : r.result with
    | ok a =>
      rw [Outcome.andThen_of_ok hq, Outcome.andThen_of_ok (hr.trans hq), hs]
      exact (hf a).after hn _
    | error e =>
      rw [Outcome.andThen_of_error hq, Outcome.andThen_of_error (hr.trans hq)]
      exact .same hs rfl hn
  | surfaced hs hf' hr hr' =>
    rw [Outcome.andThen_of_error hr, Outcome.andThen_of_ok hr', hs, hidle]
    exact .surfaced rfl hf' rfl rfl

/-- The twin goes the same way where a condition is the same for both. -/
private theorem ite {c c' : Prop} [Decidable c] [Decidable c'] {q : Outcome σ α} {q' : Outcome σ' α} (hc : c' ↔ c)
    (h : c → Mirrors source calm idle r r') (h' : ¬ c → Mirrors source calm idle q q') :
    Mirrors source calm idle (if c then r else q) (if c' then r' else q') := by
  by_cases hcond : c
  · rw [if_pos hcond, if_pos (hc.2 hcond)]
    exact h hcond
  · rw [if_neg hcond, if_neg (fun h => hcond (hc.1 h))]
    exact h' hcond

end Mirrors

variable {τ τ' : Type} [Transport τ] [Transport τ'] {calm : τ → τ'}

/-! ### Sources -/

namespace Source

/-- The one answer that can be a failure is the last one, since those before it are interruptions. -/
private theorem failures_receive (s : Source τ) :
    failures s.receive.events = (Transport.poll s.transport s.buffer.space).reply.failure?.toList := by
  have hi : (Transport.poll s.transport s.buffer.space).interruptions.filterMap Reply.failure? = [] := by
    refine List.filterMap_eq_nil_iff.2 fun r hr => Option.eq_none_iff_forall_ne_some.2 fun f hf => ?_
    obtain ⟨rfl, -, hk⟩ := Reply.failure?_eq_some_iff.1 hf
    have := Transport.isInterrupted_of_mem_interruptions _ _ _ hr
    simp [Reply.isInterrupted, hk] at this
  rw [failures, replies_receive, Polled.replies, List.filterMap_append, hi, List.nil_append]
  cases h : (Transport.poll s.transport s.buffer.space).reply.failure? <;> simp [h]

private theorem mirrors_receive (hc : Transport.Calms calm) {s : Source τ} (hx : s.exhausted = false) :
    Mirrors id (mapTransport calm) false s.receive (s.mapTransport calm).receive := by
  have hpoll := hc s.transport s.buffer.space
  have hlast := s.lastReply_receive
  have hfailures := s.failures_receive
  have hi := Transport.not_isInterrupted_poll s.transport s.buffer.space
  cases hp : (Transport.poll s.transport s.buffer.space).reply with
  | data bs =>
    rw [hp, Reply.calmed] at hpoll
    rw [hp] at hfailures
    cases bs with
    | nil =>
      exact .same (by simp [receive, mapTransport, hpoll, hp]) (by simp [receive, mapTransport, hpoll, hp]) hfailures
    | cons b bs =>
      exact .same (by simp [receive, mapTransport, hpoll, hp]) (by simp [receive, mapTransport, hpoll, hp]) hfailures
  | fault f =>
    rw [hp, Reply.calmed] at hpoll
    have hs : (s.mapTransport calm).receive.state = s.receive.state.mapTransport calm := by
      simp [receive, mapTransport, hpoll, hp]
    have hr' : (s.mapTransport calm).receive.result = .ok false := by
      simp [receive, mapTransport, hpoll, Fault.wouldBlock, Fault.kind]
    rw [hp] at hlast hfailures hi
    -- A blocked read is none of the faults that come out.
    by_cases hk : f.kind = .wouldBlock
    · exact .same hs (hr'.trans (by simp [receive, hp, hk])) (hfailures.trans (by simp [Reply.failure?, hk]))
    · have hk' : f.kind ≠ .interrupted := by simpa [Reply.isInterrupted] using hi
      refine .surfaced (f := f) hs ⟨?_, hlast, ?_⟩ (by simp [receive, hp, hk]) hr'
      · simpa [receive, hp] using hx
      · rw [hfailures, Reply.failure?_eq_some_iff.2 ⟨rfl, hk, hk'⟩, Option.toList_some]

private theorem mirrors_refill (hc : Transport.Calms calm) (s : Source τ) :
    Mirrors id (mapTransport calm) false s.refill (s.mapTransport calm).refill := by
  unfold refill
  rw [recycle_mapTransport]
  refine .ite Iff.rfl (fun _ => .same rfl rfl rfl) fun hx => ?_
  refine .ite Iff.rfl (fun _ => .same rfl rfl rfl) fun _ => ?_
  refine .ite Iff.rfl (fun _ => .same rfl rfl rfl) fun _ => ?_
  exact mirrors_receive hc (by simpa using hx)

private theorem mirrors_replenish (hc : Transport.Calms calm) (s : Source τ) :
    Mirrors id (mapTransport calm) 0 s.replenish (s.mapTransport calm).replenish := by
  unfold replenish
  refine .ite Iff.rfl (fun _ => .same rfl rfl rfl) fun _ => ?_
  have hrefill := mirrors_refill hc { s with flag := .filling, buffer := s.buffer.clear }
  exact hrefill.andThen (fun _ => .same rfl rfl rfl) rfl

private theorem mirrors_read (hc : Transport.Calms calm) (s : Source τ) (room : Nat) :
    Mirrors id (mapTransport calm) [] (s.read room) ((s.mapTransport calm).read room) := by
  unfold read
  refine .ite Iff.rfl (fun _ => .same rfl rfl rfl) fun _ => ?_
  refine (mirrors_replenish hc s).andThen (fun n => ?_) rfl
  refine .ite Iff.rfl (fun _ => .same rfl rfl rfl) fun _ => ?_
  exact .same (noteUsedUp_mapTransport calm { s.replenish.state with buffer := (s.replenish.state.buffer.read room).2 })
    rfl rfl

end Source

/-! ### Lines -/

namespace Line

/-- A fault between two pieces of a line leaves the line as a blocked read does. -/
private theorem mirrors_fill (hc : Transport.Calms calm) (δ : Dialect) (limit : Nat) (l : Line) (s : Source τ) :
    Mirrors Prod.snd (Prod.map id (Source.mapTransport calm)) .dry (l.fill δ limit s)
      (l.fill δ limit (s.mapTransport calm)) := by
  -- A turn that moves bytes moves the same bytes in the twin, and no failure was met.
  have hturn {l : Line} {s : Source τ} {n : Nat} (hr : s.replenish.result = .ok (n + 1)) :
      (s.mapTransport calm).replenish.result = .ok (n + 1) ∧
        (s.mapTransport calm).replenish.state.buffer = s.replenish.state.buffer ∧
        turned δ limit l (s.mapTransport calm) = (turned δ limit l s).mapTransport calm ∧
        failures (s.replenish.events ++ [.taken (l.absorb δ limit s.replenish.state.buffer).taken]) = [] := by
    cases Source.mirrors_replenish hc s with
    | same hs hr' hn =>
      refine ⟨hr'.trans hr, by rw [hs]; rfl, ?_, ?_⟩
      · rw [turned, hs]
        exact Source.noteUsedUp_mapTransport calm
          { s.replenish.state with buffer := (l.absorb δ limit s.replenish.state.buffer).buffer }
      · rw [failures_append, hn]
        rfl
    | surfaced _ _ hr' => simp [hr] at hr'
  fun_induction fill δ limit l s with
  | case1 l s r f hr =>
    cases Source.mirrors_replenish hc s with
    | same hs hr' hn =>
      rw [fill_of_error (hr'.trans hr), hs]
      exact .same rfl rfl hn
    | @surfaced g hs hf hr' hr'' =>
      rw [fill_of_dry hr'', hs]
      obtain rfl : g = f := by simpa [r, hr'] using hr
      exact .surfaced rfl hf rfl rfl
  | case2 l s r hr =>
    cases Source.mirrors_replenish hc s with
    | same hs hr' hn =>
      rw [fill_of_dry (hr'.trans hr), hs]
      exact .same rfl rfl hn
    | surfaced _ _ hr' => simp [r, hr'] at hr
  | case3 l s r n hr a s' events e ha =>
    obtain ⟨hr', hb, ht, hn⟩ := hturn (l := l) hr
    rw [fill_of_broken hr' (by rw [hb]; exact ha), hb, ht]
    exact .same rfl rfl hn
  | case4 l s r n hr a s' events ha =>
    obtain ⟨hr', hb, ht, hn⟩ := hturn (l := l) hr
    rw [fill_of_complete hr' (by rw [hb]; exact ha), hb, ht]
    exact .same rfl rfl hn
  | case5 l s r n hr a s' events state ha hstate ih =>
    obtain ⟨hr', hb, ht, hn⟩ := hturn (l := l) hr
    rw [fill_of_open hr' (by rw [hb]; exact ha) hstate, hb, ht]
    exact ih.after hn _

end Line

/-! ### Decoders -/

/-- What an operation gives when there is nothing to be had. -/
def Operation.idle : Operation → Answer
  | .read _ => .progress .pending
  | .refill => .refilled false
  | .take _ => .taken []
  | .replenish => .available 0
  | .noteUsedUp | .markDraining | .next _ => .done

namespace Decoder

section

variable {τ τ' α : Type}

/-- The decoder over a source with another transport. -/
def mapTransport (f : τ → τ') (d : Decoder τ) : Decoder τ' where
  source := d.source.mapTransport f
  line := d.line
  phase := d.phase
  remaining := d.remaining
  decoded := d.decoded
  trailers := d.trailers
  limits := d.limits

/-- A part of a decoder and the same part of its twin. -/
private abbrev StepMirrors (f : τ → τ') (r : StepOutcome τ) (r' : StepOutcome τ') : Prop :=
  Mirrors Decoder.source (mapTransport f) (some .pending) r r'

private theorem mirrors_fail (f : τ → τ') (d : Decoder τ) (e : FramingError) :
    StepMirrors f (d.fail e) ((d.mapTransport f).fail e) := .same rfl rfl rfl

private theorem mirrors_acceptSizeLine (f : τ → τ') (d : Decoder τ) :
    StepMirrors f d.acceptSizeLine (d.mapTransport f).acceptSizeLine := by
  unfold acceptSizeLine
  cases hv : (SizeLine.size d.line.content).bind (d.limits.accept d.decoded) with
  | error e =>
    simp only [mapTransport, hv]
    exact .same rfl rfl rfl
  | ok size =>
    simp only [mapTransport, hv]
    exact .ite Iff.rfl (fun _ => .same rfl rfl rfl) fun _ => .same rfl rfl rfl

private theorem mirrors_acceptTerminator (f : τ → τ') (d : Decoder τ) :
    StepMirrors f d.acceptTerminator (d.mapTransport f).acceptTerminator := by
  unfold acceptTerminator
  exact .ite Iff.rfl (fun _ => .same rfl rfl rfl) fun _ => .same rfl rfl rfl

private theorem mirrors_acceptTrailerLine (f : τ → τ') (δ : Dialect) (d : Decoder τ) :
    StepMirrors f (d.acceptTrailerLine δ) ((d.mapTransport f).acceptTrailerLine δ) := by
  unfold acceptTrailerLine
  exact .ite Iff.rfl (fun _ => .same rfl rfl rfl) fun _ => .same rfl rfl rfl

private theorem mirrors_stall (f : τ → τ') (d : Decoder τ) : StepMirrors f d.stall (d.mapTransport f).stall := by
  unfold stall
  exact .ite Iff.rfl (fun _ => mirrors_fail f d _) fun _ => .same rfl rfl rfl

private theorem mirrors_onSource {f : τ → τ'} {idle : α} {r : Outcome (Source τ) α} {r' : Outcome (Source τ') α}
    (h : Mirrors id (Source.mapTransport f) idle r r') (d : Decoder τ) (answer : α → Answer) :
    Mirrors Decoder.source (mapTransport f) (answer idle) (d.onSource answer r)
      ((d.mapTransport f).onSource answer r') := by
  have hstate : ((d.mapTransport f).onSource answer r').state = (d.onSource answer r).state.mapTransport f := by
    simp only [Decoder.onSource, Outcome.mapState, Outcome.state_map, h.state_eq]
    rfl
  cases h.map answer with
  | same _ hr hn => exact .same hstate hr hn
  | surfaced _ hf hr hr' => exact .surfaced hstate hf hr hr'

/-- A source that is not at its end is no reason to fail. -/
private theorem stall_of_not_exhausted {d : Decoder τ} (h : d.source.exhausted = false) :
    d.stall = ⟨.ok (some .pending), d, []⟩ := by
  rw [stall, if_neg (by simp [Source.isExhausted, h])]

end

private theorem mirrors_withLine (hc : Transport.Calms calm) (δ : Dialect) (limit : Nat)
    {accept : Decoder τ → StepOutcome τ} {accept' : Decoder τ' → StepOutcome τ'} (d : Decoder τ)
    (ha : ∀ e : Decoder τ, StepMirrors calm (accept e) (accept' (e.mapTransport calm))) :
    StepMirrors calm (d.withLine δ limit accept) ((d.mapTransport calm).withLine δ limit accept') := by
  have h := Line.mirrors_fill hc δ limit d.line d.source
  have hfill : (d.mapTransport calm).line.fill δ limit (d.mapTransport calm).source =
      d.line.fill δ limit (d.source.mapTransport calm) := rfl
  unfold withLine
  rw [hfill]
  simp only
  cases h with
  | same hs hr hn =>
    rw [hr, hs]
    cases hq : (d.line.fill δ limit d.source).result with
    | error f => exact .same rfl rfl hn
    | ok turn =>
      cases turn with
      | dry => exact (mirrors_stall calm _).after hn _
      | broken e => exact (mirrors_fail calm _ e).after hn _
      | complete => exact (ha _).after hn _
  | surfaced hs hf hr hr' =>
    rw [hr, hr', hs]
    simp only
    rw [stall_of_not_exhausted hf.not_exhausted]
    exact .surfaced rfl hf rfl rfl

private theorem mirrors_handOver (hc : Transport.Calms calm) (d : Decoder τ) (room : Nat) :
    StepMirrors calm (d.handOver room) ((d.mapTransport calm).handOver room) := by
  have h := Source.mirrors_read hc d.source (min room d.remaining.toNat)
  have hread : (d.mapTransport calm).source.read (min room (d.mapTransport calm).remaining.toNat) =
      (d.source.mapTransport calm).read (min room d.remaining.toNat) := rfl
  unfold handOver
  refine .ite Iff.rfl (fun _ => .same rfl rfl rfl) fun _ => ?_
  rw [hread]
  simp only
  cases h with
  | same hs hr hn =>
    rw [hr, hs]
    cases hq : (d.source.read (min room d.remaining.toNat)).result with
    | error f => exact .same rfl rfl hn
    | ok bs =>
      cases bs with
      | nil => exact (mirrors_stall calm _).after hn _
      | cons b bs => exact .same rfl rfl hn
  | surfaced hs hf hr hr' =>
    rw [hr, hr', hs]
    simp only
    rw [stall_of_not_exhausted hf.not_exhausted]
    exact .surfaced rfl hf rfl rfl

/-- Whatever the phase, a fault leaves the decoder where a blocked read leaves it. -/
private theorem mirrors_step (hc : Transport.Calms calm) (δ : Dialect) (d : Decoder τ) (room : Nat) :
    StepMirrors calm (d.step δ room) ((d.mapTransport calm).step δ room) := by
  unfold step
  cases hp : d.phase with
  | size =>
    simp only [show (d.mapTransport calm).phase = .size from hp]
    exact mirrors_withLine hc δ _ d (mirrors_acceptSizeLine calm)
  | data =>
    simp only [show (d.mapTransport calm).phase = .data from hp]
    refine .ite Iff.rfl (fun _ => mirrors_handOver hc d room) fun _ => ?_
    exact mirrors_withLine hc δ _ d (mirrors_acceptTerminator calm)
  | trailers =>
    simp only [show (d.mapTransport calm).phase = .trailers from hp]
    exact mirrors_withLine hc δ _ d (mirrors_acceptTrailerLine calm δ)
  | terminated =>
    simp only [show (d.mapTransport calm).phase = .terminated from hp]
    exact .same rfl rfl rfl
  | failed m e =>
    simp only [show (d.mapTransport calm).phase = .failed m e from hp]
    exact .same rfl rfl rfl

private theorem mirrors_advance (hc : Transport.Calms calm) (δ : Dialect) (d : Decoder τ) (room : Nat) :
    Mirrors Decoder.source (mapTransport calm) .pending (d.advance δ room) ((d.mapTransport calm).advance δ room) := by
  fun_induction advance δ d room with
  | case1 d r f hr =>
    cases mirrors_step hc δ d room with
    | same hs hr' hn =>
      rw [advance_of_error (hr'.trans hr)]
      exact .same hs rfl hn
    | @surfaced g hs hf hr' hr'' =>
      obtain rfl : g = f := by simpa [r, hr'] using hr
      rw [advance_of_answer hr'']
      exact .surfaced hs hf rfl rfl
  | case2 d r p hr =>
    cases mirrors_step hc δ d room with
    | same hs hr' hn =>
      rw [advance_of_answer (hr'.trans hr)]
      exact .same hs rfl hn
    | surfaced _ _ hr' => simp [r, hr'] at hr
  | case3 d r hr ih =>
    cases mirrors_step hc δ d room with
    | same hs hr' hn =>
      rw [advance_of_none (hr'.trans hr), hs]
      exact ih.after hn _
    | surfaced _ _ hr' => simp [r, hr'] at hr

private theorem mirrors_read (hc : Transport.Calms calm) (δ : Dialect) (d : Decoder τ) (room : Nat) :
    Mirrors Decoder.source (mapTransport calm) .pending (d.read δ room) ((d.mapTransport calm).read δ room) := by
  unfold read
  simp only
  -- What a read reports about itself is none of the answers of the transport.
  have hreplies (result : Except Fault (Progress Nat)) :
      replies ((d.advance δ room).state.source.report result).2 = [] := Source.replies_report _ _
  cases mirrors_advance hc δ d room with
  | same hs hr hn =>
    rw [hr, hs]
    refine .same ?_ rfl ?_
    · have hreport := (d.advance δ room).state.source.report_mapTransport calm
        ((d.advance δ room).result.map (Progress.map List.length))
      simp only [mapTransport]
      rw [hreport]
    · rw [failures_append, hn, failures_of_replies (hreplies _), List.append_nil]
  | @surfaced f hs hf hr hr' =>
    -- The records that the two write differ, but neither changes the source.
    rw [hr, hr', hs]
    refine .surfaced rfl ⟨?_, ?_, ?_⟩ rfl rfl
    · simpa using hf.not_exhausted
    · rw [lastReply_append_of_replies (hreplies _)]
      exact hf.lastReply_eq
    · rw [failures_append, hf.failures_eq, failures_of_replies (hreplies _), List.append_nil]

/-- Every operation on the twin is a mirror of the operation on the decoder. -/
theorem mirrors_perform (hc : Transport.Calms calm) (δ : Dialect) (d : Decoder τ) (op : Operation) :
    Mirrors Decoder.source (mapTransport calm) op.idle (d.perform δ op) ((d.mapTransport calm).perform δ op) := by
  cases op with
  | read room => exact (mirrors_read hc δ d room).map Answer.progress
  | refill => exact mirrors_onSource (Source.mirrors_refill hc d.source) d .refilled
  | take room => exact mirrors_onSource (Source.mirrors_read hc d.source room) d .taken
  | replenish => exact mirrors_onSource (Source.mirrors_replenish hc d.source) d .available
  | noteUsedUp =>
    refine .same ?_ rfl rfl
    simp only [perform, mapTransport, Source.noteUsedUp_mapTransport]
  | markDraining => exact .same rfl rfl rfl
  | next limits => exact .same rfl rfl rfl

/-- After every run the decoder and its twin differ in nothing but the transport. -/
theorem finish_mapTransport (hc : Transport.Calms calm) (δ : Dialect) (d : Decoder τ) (ops : List Operation) :
    (d.mapTransport calm).finish δ ops = (d.finish δ ops).mapTransport calm := by
  induction ops generalizing d with
  | nil => rfl
  | cons op ops ih => rw [finish_cons, finish_cons, (mirrors_perform hc δ d op).state_eq, ih]

end Decoder

end ChunkedTransfer
