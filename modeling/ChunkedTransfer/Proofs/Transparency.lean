import ChunkedTransfer.Proofs.Mirror
import ChunkedTransfer.Proofs.Phases
import ChunkedTransfer.Transport.Faulty

/-!
# Transparency of faults

A transport that is interrupted or fails now and then is compared with its calm twin: the interruptions are taken out
of its plan, and the other faults are turned into blocked reads (`FaultPlan.calmed`). Polled, the two give the same but
for the faults (`Faulty.calms`). So a decoder over the one goes through the states of a decoder over the other. A
failure comes out of the operation that met it as the transport gave it, and makes no decoder fail or lose a byte
(`faults_transparent`).
-/

namespace ChunkedTransfer

namespace FaultPlan

/-- Puts undisturbed reads in front of a plan. -/
def delay (n : Nat) : FaultPlan → FaultPlan
  | [] => []
  | (m, d) :: plan => (n + m, d) :: plan

/-- The plan without its interruptions, and with blocked reads in place of the other faults. -/
def calmed : FaultPlan → FaultPlan
  | [] => []
  | (n, .ended) :: plan => (n, .ended) :: calmed plan
  | (n, .fault f) :: plan =>
    if f.kind = .interrupted then delay n (calmed plan) else (n, .fault .wouldBlock) :: calmed plan

@[simp] theorem delay_zero (plan : FaultPlan) : delay 0 plan = plan := by
  cases plan <;> simp [delay]

end FaultPlan

/-- All that fragments do is to block. -/
private theorem Fragments.calmed_read (t : Fragments) (room : Nat) : (t.read room).1.calmed = (t.read room).1 := by
  unfold read
  split
  · rfl
  · rfl
  · split <;> rfl

namespace Faulty

def calmed (t : Faulty Fragments) : Faulty Fragments where
  transport := t.transport
  plan := t.plan.calmed

/-- An undisturbed read makes the next disturbance come one read earlier. -/
private theorem read_delay (t : Fragments) (n : Nat) (plan : FaultPlan) (room : Nat) :
    read ⟨t, plan.delay (n + 1)⟩ room = ((t.read room).1, ⟨(t.read room).2, plan.delay n⟩) := by
  cases plan with
  | nil => rfl
  | cons p plan =>
    obtain ⟨m, d⟩ := p
    rw [FaultPlan.delay, FaultPlan.delay, Nat.add_right_comm]
    rfl

/-- A read of the twin, unless the read is interrupted. -/
private theorem read_calmed {t : Faulty Fragments} {room : Nat} (h : (t.read room).1.isInterrupted = false) :
    t.calmed.read room = ((t.read room).1.calmed, (t.read room).2.calmed) := by
  obtain ⟨t, plan⟩ := t
  cases plan with
  | nil => exact congrArg (·, _) (t.calmed_read room).symm
  | cons p plan =>
    obtain ⟨n, d⟩ := p
    cases n with
    | zero =>
      cases d with
      | ended => rfl
      | fault f =>
        have hk : f.kind ≠ .interrupted := by simpa [read, Disturbance.reply, Reply.isInterrupted] using h
        simp only [calmed, FaultPlan.calmed, if_neg hk]
        rfl
    | succ n =>
      have hcalm : (read ⟨t, (n + 1, d) :: plan⟩ room).1.calmed = (t.read room).1 := t.calmed_read room
      rw [hcalm]
      cases d with
      | ended => rfl
      | fault f =>
        by_cases hk : f.kind = .interrupted
        · simp only [calmed, read, FaultPlan.calmed, if_pos hk]
          exact read_delay t n _ room
        · simp only [calmed, read, FaultPlan.calmed, if_neg hk]
          rfl

/-- An interrupted read leaves no trace in the twin. -/
private theorem calmed_read_of_isInterrupted {t : Faulty Fragments} {room : Nat}
    (h : (t.read room).1.isInterrupted = true) : (t.read room).2.calmed = t.calmed := by
  obtain ⟨t, plan⟩ := t
  cases plan with
  | nil =>
    have h' : (t.read room).1.isInterrupted = true := h
    simp [t.not_isInterrupted_read] at h'
  | cons p plan =>
    obtain ⟨n, d⟩ := p
    cases n with
    | zero =>
      cases d with
      | ended => simp [read, Disturbance.reply, Reply.ended, Reply.isInterrupted] at h
      | fault f =>
        have hk : f.kind = .interrupted := by simpa [read, Disturbance.reply, Reply.isInterrupted] using h
        simp [calmed, read, FaultPlan.calmed, hk]
    | succ n =>
      have h' : (t.read room).1.isInterrupted = true := h
      simp [t.not_isInterrupted_read] at h'

theorem calms : Transport.Calms calmed := by
  intro t room
  fun_induction Transport.poll t room with
  | case1 t r h p ih =>
    have hcalm : r.2.calmed = t.calmed := calmed_read_of_isInterrupted h
    rw [hcalm] at ih
    exact ih
  | case2 t r h =>
    have h' : (t.read room).1.isInterrupted = false := eq_false_of_ne_true h
    have hread : Transport.read t.calmed room = (r.1.calmed, r.2.calmed) := read_calmed h'
    rw [Transport.poll_of_not_isInterrupted, hread]
    rw [hread]
    cases hr : r.1 with
    | data bs => rfl
    | fault f => rfl

end Faulty

namespace Decoder

/-- An answer that no other has followed is a failure unless the transport would block, since it is no interruption. -/
private theorem mem_failures_of_lastReply {τ : Type} [Transport τ] (δ : Dialect) {d : Decoder τ} {op : Operation}
    {f : Fault} (hl : lastReply (d.perform δ op).events = some (.fault f)) (hk : f.kind ≠ .wouldBlock) :
    f ∈ failures (d.perform δ op).events := by
  have hi := (d.trace_perform δ op).not_isInterrupted_of_lastReply hl
  exact mem_failures_iff.2 ⟨List.mem_of_getLast? hl, hk, by simpa [Reply.isInterrupted] using hi⟩

/-- A decoder from which a fault comes out has not failed of it. -/
private theorem phase_of_surfaced {τ τ' : Type} [Transport τ] [Transport τ'] {calm : τ → τ'} (δ : Dialect)
    {d : Decoder τ} {op : Operation}
    (hs : ((d.mapTransport calm).perform δ op).state = (d.perform δ op).state.mapTransport calm)
    (hr : ((d.mapTransport calm).perform δ op).result = .ok op.idle)
    (hp : (d.perform δ op).state.phase.isFailed = true) : (d.perform δ op).state.phase = d.phase := by
  have hphase : ((d.mapTransport calm).perform δ op).state.phase = (d.perform δ op).state.phase := by rw [hs]; rfl
  cases op with
  | read room =>
    -- The twin has answered that it waits, and is in the same phase.
    have hadvance : ((d.mapTransport calm).advance δ room).result = .ok .pending := by
      cases hq : ((d.mapTransport calm).advance δ room).result with
      | ok p => simpa [perform, read, Outcome.map, hq, Except.map, Operation.idle] using hr
      | error f => simp [perform, read, Outcome.map, hq, Except.map] at hr
    have hf := unfailed_advance δ (d.mapTransport calm) room _ hadvance
    rw [← hphase] at hp
    simp only [perform, read, Outcome.state_map] at hp
    simp [hf] at hp
  | refill => rfl
  | take room => rfl
  | replenish => rfl
  | noteUsedUp => rfl
  | markDraining => rfl
  | next limits => simp [perform, next, ofSource, Phase.isFailed] at hp

/-- Faults of the transport are transparent. After every run of operations, a decoder over a transport that fails and is
interrupted by any plan and its twin over the calm transport differ in nothing but the transport. The next operation
leaves both in the same state again. If the transport does not fail under it, the two have the same result, and so
nothing but blocked reads and interruptions was kept from the caller. A failure is the last answer of the transport,
since the operation ends with it, and comes out as it is, while the twin has merely nothing to give, so that the decoder
can be used on as if it had waited. It has not failed of the failure, whatever that is. No answer is missing from the
events: the transport is where those in them leave it. And no byte is lost: what was in the buffer and what has come in
since is what was taken and what is in the buffer. -/
theorem faults_transparent (δ : Dialect) (limits : Limits) (b : Buffer) (t : Faulty Fragments) (ops : List Operation)
    (op : Operation) :
    let d := (ofSource (.ofBuffer b t) limits).finish δ ops
    let twin := (ofSource (.ofBuffer b t.calmed) limits).finish δ ops
    let r := d.perform δ op
    let r' := twin.perform δ op
    twin = d.mapTransport Faulty.calmed ∧ r'.state = r.state.mapTransport Faulty.calmed ∧
      (r'.result = r.result ∧ failures r.events = [] ∨
        ∃ f, r.result = .error f ∧ r'.result = .ok op.idle ∧ lastReply r.events = some (.fault f) ∧
          failures r.events = [f] ∧ f.kind ≠ .wouldBlock ∧ f.kind ≠ .interrupted ∧
          (r.state.phase.isFailed = true → r.state.phase = d.phase)) ∧
      (∀ f, lastReply r.events = some (.fault f) → f.kind ≠ .wouldBlock →
        r.result = .error f ∧ r'.result = .ok op.idle) ∧
      Transport.Reads d.source.transport (replies r.events) r.state.source.transport ∧
      d.source.buffer.data ++ received r.events = consumed r.events ++ r.state.source.buffer.data := by
  intro d twin r r'
  have htwin : twin = d.mapTransport Faulty.calmed :=
    finish_mapTransport Faulty.calms δ (ofSource (.ofBuffer b t) limits) ops
  have hconsistent : d.source.Consistent :=
    ((trace_run δ (ofSource (.ofBuffer b t) limits) ops).conserves (Source.consistent_ofBuffer b t)).1
  have hreads := (d.trace_perform δ op).reads
  have hconserves := ((d.trace_perform δ op).conserves hconsistent).2
  have hr' : r' = (d.mapTransport Faulty.calmed).perform δ op := congrArg (perform δ · op) htwin
  rw [hr']
  cases mirrors_perform Faulty.calms δ d op with
  | same hs hr hn =>
    refine ⟨htwin, hs, .inl ⟨hr, hn⟩, fun f hl hk => ?_, hreads, hconserves⟩
    have hmem : f ∈ [] := hn ▸ mem_failures_of_lastReply δ hl hk
    exact absurd hmem List.not_mem_nil
  | @surfaced f hs hf hr hidle =>
    refine ⟨htwin, hs, .inr ⟨f, hr, hidle, hf.lastReply_eq, hf.failures_eq, hf.kind_ne.1, hf.kind_ne.2,
      phase_of_surfaced δ hs hidle⟩, fun g hl hk => ?_, hreads, hconserves⟩
    have hmem : g ∈ [f] := hf.failures_eq ▸ mem_failures_of_lastReply δ hl hk
    obtain rfl := List.mem_singleton.1 hmem
    exact ⟨hr, hidle⟩

/-- A transport that is interrupted within a size line, and fails within the payload with a fault of the kind that a
malformed body has. The fault comes out, and the next read goes on with the payload. -/
theorem faults_transparent_of_bad_record :
    let fault := Fault.described .invalidData "bad record"
    let t : Faulty Fragments := ⟨⟨[.fragment 52 [], .fragment 13 [10, 87, 105], .fragment 107 [105, 13, 10]], true⟩,
      [(1, .fault (.plain .interrupted)), (1, .fault fault)]⟩
    let start := ofSource (.ofBuffer (.ofStorage (List.replicate 8 0)) t) {}
    let twin := ofSource (.ofBuffer (.ofStorage (List.replicate 8 0)) t.calmed) {}
    let r := (start.finish .strict [.read 4]).perform .strict (.read 4)
    let r' := (twin.finish .strict [.read 4]).perform .strict (.read 4)
    .fault (.plain .interrupted) ∈ replies (eventsOf (start.run .strict [.read 4])) ∧
      r.result = .error fault ∧ r'.result = .ok (.progress .pending) ∧ r.state.phase = .data ∧
      r'.state = r.state.mapTransport Faulty.calmed ∧
      (r.state.perform .strict (.read 4)).result = .ok (.progress (.read [107, 105])) := by
  intro fault t start twin r r'
  obtain ⟨-, hstate, -, hfailed, -⟩ :=
    faults_transparent .strict {} (.ofStorage (List.replicate 8 0)) t [.read 4] (.read 4)
  obtain ⟨hresult, hidle⟩ := hfailed fault (by decide +kernel) (by decide)
  exact ⟨by decide +kernel, hresult, hidle, by decide +kernel, hstate, by decide +kernel⟩

end Decoder

end ChunkedTransfer
