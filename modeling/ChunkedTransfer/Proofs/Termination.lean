import ChunkedTransfer.Proofs.Demand
import ChunkedTransfer.Proofs.Stream

/-!
# Termination

What is left in a source bounds the work of a read, in each of its loops: every step without an answer and every turn
of a line takes bytes (`PassesIn.add_work_le`, `Frugal.countP_isTaken_le`), and the transport is asked again only
after an answer that has cost something (`Frugal.length_replies_le`).

A caller who goes on reading comes to a verdict for the same reason. A read without one uses up a byte or a delay, and
there is a verdict at once where one was given before (`exists_concludes_of_settled`).
-/

namespace ChunkedTransfer

def Event.isTaken : Event → Bool
  | taken _ => true
  | _ => false

private theorem Event.IsNote.isTaken_eq {e : Event} (h : e.IsNote) : e.isTaken = false := by
  cases e <;> simp [IsNote, isTaken] at h ⊢

/-- An answer that goes on has its cost. -/
private theorem Reply.GoesOn.cost_pos {r : Reply} (h : r.GoesOn) : 0 < r.cost := by
  rcases h with h | h
  · rw [cost_eq_one_of_isInterrupted h]
    exact Nat.one_pos
  · exact Nat.lt_of_lt_of_le (List.length_pos_iff.2 h) r.length_bytes_le_cost

namespace Frugal

variable {wanted : Bytes → Prop} {held : Bytes} {es : List Event}

/-- Whoever takes bytes takes at least one. -/
theorem countP_isTaken_le (h : Frugal wanted held es) : es.countP Event.isTaken ≤ (consumed es).length := by
  induction h with
  | nil => exact Nat.le_refl _
  | note he _ ih => simpa [he.isTaken_eq, he.consumed_eq] using ih
  | asked room hw hgo _ ih => simpa [Event.isTaken] using ih
  | taken hb _ ih =>
    have := List.length_pos_iff.2 hb
    simp only [List.countP_cons, Event.isTaken, if_true, consumed_cons, Event.consumed_taken, List.length_append]
    omega

/-- All answers but the last have their cost. -/
theorem length_replies_le (h : Frugal wanted held es) :
    (replies es).length ≤ ((replies es).map Reply.cost).sum + 1 := by
  induction h with
  | nil => exact Nat.zero_le _
  | note he _ ih => rwa [he.replies_cons]
  | asked room hw hgo _ ih =>
    rw [replies_cons_asked, List.length_cons, List.map_cons, List.sum_cons]
    rcases hgo with hnone | hgo
    · rw [hnone, List.length_nil]
      omega
    · have := hgo.cost_pos
      omega
  | taken hb _ ih => exact ih

end Frugal

private theorem Transport.Reads.cost_le {τ : Type} [Transport τ] {t t' : τ} {rs : List Reply} (h : Reads t rs t') :
    (rs.map Reply.cost).sum + budget t' ≤ budget t := by
  induction h with
  | nil t => simp
  | @cons t t' rs room _ ih =>
    have := cost_read_le t room
    simp only [List.map_cons, List.sum_cons]
    omega

/-- An exhausted source without bytes stays so, whatever is done with it. -/
private theorem Source.Trace.data_eq_nil_of_exhausted {τ : Type} [Transport τ] {s s' : Source τ} {es : List Event}
    (h : Trace s es s') (hs : s.Consistent) (hx : s.exhausted = true) (hd : s.buffer.data = []) :
    s'.buffer.data = [] := by
  have hconserved := (h.conserves hs).2
  rw [hd, received_eq, h.replies_of_exhausted hx] at hconserved
  exact (List.append_eq_nil_iff.1 hconserved.symm).2

namespace Decoder

variable {τ : Type} [Transport τ]

/-! ### What holds in every reachable state -/

/-- A decoder goes with a scan after every operation, also where bytes were taken past it or where it has taken the
place of another. -/
private theorem exists_tracks_perform (δ : Dialect) {d : Decoder τ} {s : Scan} (h : d.Tracks s) (op : Operation) :
    ∃ s', (d.perform δ op).state.Tracks s' := by
  have htrace := d.trace_perform δ op
  have hconsistent := (htrace.conserves h.consistent).1
  have hcapacity : 0 < (d.perform δ op).state.source.buffer.capacity := by
    rw [htrace.capacity_eq]
    exact h.capacity_pos
  rcases d.perform_cases δ op with hr | ⟨limits, rfl⟩ | ⟨-, source, hs⟩
  · exact ⟨_, tracks_perform δ h (.inl hr)⟩
  · exact ⟨{}, agrees_ofSource _ _, drained_of_running rfl, hconsistent, hcapacity⟩
  · refine ⟨s, ?_, ?_, hconsistent, hcapacity⟩
    · rw [hs]
      exact h.agrees.withSource source
    · intro m p hm
      obtain ⟨hx, hd⟩ := h.drained m p (by rwa [hs] at hm)
      exact ⟨htrace.exhausted_iff.2 (.inl hx), htrace.data_eq_nil_of_exhausted h.consistent hx hd⟩

private theorem exists_tracks_finish (δ : Dialect) {d : Decoder τ} {s : Scan} (h : d.Tracks s) (ops : List Operation) :
    ∃ s', (d.finish δ ops).Tracks s' := by
  induction ops generalizing d s with
  | nil => exact ⟨s, h⟩
  | cons op ops ih =>
    obtain ⟨s', h'⟩ := exists_tracks_perform δ h op
    exact ih h'

/-! ### The steps of a read -/

/-- A read goes from one decoder to the other in so many steps, none of them with an answer. -/
inductive PassesIn (δ : Dialect) (room : Nat) : Nat → Decoder τ → Decoder τ → Prop
  | refl (d : Decoder τ) : PassesIn δ room 0 d d
  | step {n : Nat} {d e : Decoder τ} (hr : (d.step δ room).result = .ok none)
      (h : PassesIn δ room n (d.step δ room).state e) : PassesIn δ room (n + 1) d e

/-- A read goes through steps without an answer to one that has the answer. -/
private theorem exists_passesIn (δ : Dialect) (d : Decoder τ) (room : Nat) :
    ∃ n e, PassesIn δ room n d e ∧ (e.step δ room).result = (d.advance δ room).result.map some := by
  fun_induction advance δ d room with
  | case1 d r f hr => exact ⟨0, d, .refl d, hr⟩
  | case2 d r p hr => exact ⟨0, d, .refl d, hr⟩
  | case3 d r hr ih =>
    obtain ⟨n, e, hpasses, hres⟩ := ih
    exact ⟨n + 1, e, .step hr hpasses, hres⟩

theorem PassesIn.add_work_le {δ : Dialect} {room n : Nat} {d e : Decoder τ} (h : PassesIn δ room n d e) :
    n + e.work ≤ d.work := by
  induction h with
  | refl d => simp
  | step hr _ ih =>
    have := work_step_lt hr
    omega

/-- No line is complete where a step begins, so that each step without an answer has taken bytes. -/
private theorem PassesIn.le_supply {δ : Dialect} {room n : Nat} {d e : Decoder τ} (h : PassesIn δ room n d e) {s : Scan}
    (ha : d.Agrees s) : n ≤ d.source.supply := by
  cases n with
  | zero => exact Nat.zero_le _
  | succ n =>
    have hw := h.add_work_le
    have hp : d.phase.isFailed = false := by
      cases h with
      | step hr =>
        cases hp : d.phase with
        | failed m e => simp [Decoder.step, hp] at hr
        | _ => rfl
    obtain ⟨-, -, ho, -⟩ := ha.stands.of_running hp
    simp only [work, if_neg ho.state_ne_complete] at hw
    omega

/-! ### Settled decoders -/

/-- A decoder that is settled gives its verdict in every read. -/
private theorem concludes_read_of_settled (δ : Dialect) {d : Decoder τ} {s : Scan} (h : d.Agrees s) (hp : d.Settled)
    (room : Nat) : ∃ v, Concludes (d.perform δ (.read room)) v := by
  rcases settled_iff.1 hp with ht | ⟨m, e, hf⟩
  · exact ⟨_, .complete (by rw [perform, read_of_terminated δ ht]; rfl)⟩
  · have hread := read_of_failed δ hf room
    have hres : (d.perform δ (.read room)).result = .error (.framing e) := by rw [perform, hread]; rfl
    have hphase : (d.perform δ (.read room)).state.phase = .failed m e := by rw [perform, hread]; exact hf
    obtain ⟨-, -, ⟨-, rfl⟩ | ⟨-, he⟩⟩ := h.of_failed hf
    · exact ⟨_, .truncated hres hphase⟩
    · exact ⟨_, .malformed hres he hphase⟩

theorem exists_concludes_of_settled (δ : Dialect) {d : Decoder τ} {s : Scan} (h : d.Tracks s) (hp : d.Settled)
    {ops : List Operation} (ho : ∀ op ∈ ops, op.IsReading) (hn : 0 < ops.countP Operation.isRead) :
    ∃ r ∈ d.run δ ops, ∃ v, Concludes r v := by
  induction ops generalizing d s with
  | nil => simp at hn
  | cons op ops ih =>
    obtain ⟨hop, hops⟩ := List.forall_mem_cons.1 ho
    rcases hop with ⟨room, rfl⟩ | rfl
    · exact ⟨_, List.mem_cons_self .., concludes_read_of_settled δ h.agrees hp room⟩
    · have hp' := (perform_of_settled (δ := δ) hp (.inr rfl)).1
      have hn' : 0 < ops.countP Operation.isRead := by simpa [Operation.isRead] using hn
      obtain ⟨r, hr, hv⟩ := ih (tracks_perform δ h (.inr rfl)) (by rwa [Settled, hp']) hops hn'
      exact ⟨r, List.mem_cons_of_mem _ hr, hv⟩

/-! ### Disturbed fragments -/

/-- What the buffer and the transport still have to give lies within reach. -/
private theorem supply_le_reach (s : Source (Faulty Fragments)) : s.supply ≤ s.reach := by
  have hbudget : Transport.budget s.transport = s.transport.transport.unread.length + s.transport.plan.length := rfl
  have hunread : Script.unread s.transport = s.transport.transport.unread := rfl
  have hdelays : Script.delays s.transport = s.transport.transport.gaps + s.transport.plan.length := rfl
  rw [Source.supply, hbudget, Source.reach, Source.unread, hunread, hdelays, List.length_append, Buffer.length_data]
  omega

/-- Every read comes to an end, and so does reading. In any state that is reached, whatever was done with the decoder
and its source, let `left` be the number of bytes, gaps and disturbances that are still to come. A read into any room
goes through at most so many steps before the one that answers, it takes bytes at most so often, lines and payload
together, and it asks the transport at most once more than that. If the script has an end, and reads with room for
payload are repeated, past waits and faults and with refills in between, then one of the next `left + 1` reads tells
the end of the body or fails with a framing error. -/
theorem reads_terminate (δ : Dialect) (limits : Limits) {b : Buffer} (hb : 0 < b.capacity) (t : Faulty Fragments)
    (ops : List Operation) :
    let d := (ofSource (.ofBuffer b t) limits).finish δ ops
    let left := d.source.reach
    left ≤ (b.data.length + t.transport.unread.length) + t.transport.gaps + t.plan.length ∧
      (∀ room,
        (∃ n e, PassesIn δ room n d e ∧ n ≤ left ∧ (e.step δ room).result = (d.read δ room).result.map some) ∧
          (d.read δ room).events.countP Event.isTaken ≤ left ∧ (replies (d.read δ room).events).length ≤ left + 1) ∧
      (t.transport.closed = true → ∀ more, (∀ op ∈ more, op.IsReading ∧ op ≠ .read 0) →
        left < more.countP Operation.isRead →
        ∃ r ∈ d.run δ more, r.result = .ok (.progress .ended) ∨
          ∃ m e, r.result = .error (.framing e) ∧ r.state.phase = .failed m e) := by
  intro d left
  have htrace := (ofSource (.ofBuffer b t) limits).trace_run δ ops
  obtain ⟨s, h⟩ : ∃ s, d.Tracks s := exists_tracks_finish δ (tracks_ofBuffer hb t limits) ops
  have hsupply : d.source.supply ≤ left := supply_le_reach d.source
  refine ⟨?_, fun room => ⟨?_, ?_, ?_⟩, fun hclosed more ho hn => ?_⟩
  · have hreach := htrace.reach_le (Source.consistent_ofBuffer b t)
    have hstart : Source.reach (.ofBuffer b t) =
        (b.data.length + t.transport.unread.length) + (t.transport.gaps + t.plan.length) := by
      rw [Source.reach, Source.unread, List.length_append]
      rfl
    have hle : left ≤ Source.reach (.ofBuffer b t) := Nat.le_trans (Nat.le_add_left ..) hreach
    omega
  · obtain ⟨n, e, hpasses, hres⟩ := exists_passesIn δ d room
    exact ⟨n, e, hpasses, Nat.le_trans (hpasses.le_supply h.agrees) hsupply, hres⟩
  · have hreach := (d.trace_read δ room).reach_le h.consistent
    have htaken := (frugal_read δ h.agrees h.consistent room).countP_isTaken_le
    omega
  · have hreplies := (frugal_read δ h.agrees h.consistent room).length_replies_le
    have hcost := (d.trace_read δ room).reads.cost_le
    have hbudget : Transport.budget d.source.transport ≤ d.source.supply := Nat.le_add_left ..
    omega
  · have hverdict : ∃ r ∈ d.run δ more, ∃ v, Concludes r v := by
      by_cases hp : d.Settled
      · exact exists_concludes_of_settled δ h hp (fun op hm => (ho op hm).1) (by omega)
      · -- The end of the script is still there to be waited for after any number of reads.
        have hexpects : (d.finish δ more).source.Expects := by
          refine .inl ?_
          rw [Script.closed_of_reads (d.trace_run δ more).reads, Script.closed_of_reads htrace.reads]
          exact hclosed
        exact exists_concludes_of_reach_lt δ h ho (Classical.not_not.1 hp) (fun _ => hexpects) hn
    obtain ⟨r, hr, v, hv⟩ := hverdict
    refine ⟨r, hr, ?_⟩
    cases hv with
    | complete hres => exact .inl hres
    | truncated hres hp => exact .inr ⟨_, _, hres, hp⟩
    | malformed hres _ hp => exact .inr ⟨_, _, hres, hp⟩

/-- A body that is cut short behind a gap and a timeout, and of which one byte is taken past the decoder. Five more
reads are enough. -/
theorem reads_terminate_of_cut_body :
    let t : Faulty Fragments := ⟨⟨[.fragment 49 [13, 10], .gap], true⟩, [(1, .fault (.plain .timedOut))]⟩
    let d := (ofSource (.ofBuffer (.ofStorage [0, 0]) t) {}).finish .strict [.take 1]
    ∃ r ∈ d.run .strict (List.replicate 5 (.read 1)), r.result = .ok (.progress .ended) ∨
      ∃ m e, r.result = .error (.framing e) ∧ r.state.phase = .failed m e := by
  intro t d
  have hcapacity : 0 < (Buffer.ofStorage [0, 0]).capacity := by decide
  obtain ⟨-, -, hverdict⟩ := reads_terminate .strict {} hcapacity t [.take 1]
  exact hverdict (by decide +kernel) _ (by decide +kernel) (by decide +kernel)

end Decoder

end ChunkedTransfer
