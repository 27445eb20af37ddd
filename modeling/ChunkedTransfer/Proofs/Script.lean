import ChunkedTransfer.Proofs.Conservation
import ChunkedTransfer.Transport.Faulty
import ChunkedTransfer.Transport.Fragments

/-!
# Scripts

A script is a transport whose bytes are known in advance. Each of its reads takes bytes from the front of those that
are left, and gives a fault only a limited number of times before there is nothing left. Fragments are a script, and
so are fragments some of whose reads are disturbed.

Along a trace of a source over a script, the bytes that can still be read are those that could be read at first, less
those that were taken (`Trace.unread_eq`), and each fault is one of the delays of the script (`Trace.faults_le`).
-/

namespace ChunkedTransfer

class Script (τ : Type) [Transport τ] where
  /-- The bytes that were not read yet. -/
  unread : τ → Bytes
  /-- How many reads can end in a fault while there is something left to read. -/
  delays : τ → Nat
  /-- Whether the end is reported once there are neither bytes nor delays left. -/
  closed : τ → Bool
  /-- The end is not reported before all bytes were read. -/
  Faithful : τ → Prop
  append_unread_read (t : τ) (room : Nat) :
    (Transport.read t room).1.bytes ++ unread (Transport.read t room).2 = unread t
  delays_read_le (t : τ) (room : Nat) : delays (Transport.read t room).2 ≤ delays t
  delays_read_lt {t : τ} {room : Nat} {f : Fault} (h : (Transport.read t room).1 = .fault f)
    (ht : closed t = true ∨ unread t ≠ []) : delays (Transport.read t room).2 < delays t
  closed_read (t : τ) (room : Nat) : closed (Transport.read t room).2 = closed t
  faithful_read {t : τ} (h : Faithful t) (room : Nat) : Faithful (Transport.read t room).2
  unread_of_ended {t : τ} (h : Faithful t) {room : Nat} (hr : 0 < room)
    (he : (Transport.read t room).1 = .ended) : unread t = []

/-! ### Fragments -/

namespace Fragments

/-- The number of gaps in the script. -/
def gaps (t : Fragments) : Nat := t.queue.count .gap

private theorem count_gap_ofBytes (bs : Bytes) : (Piece.ofBytes bs).count .gap = 0 := by
  cases bs <;> simp [Piece.ofBytes]

private theorem gaps_read_le (t : Fragments) (room : Nat) : (t.read room).2.gaps ≤ t.gaps := by
  unfold read
  split
  · rename_i b bs rest h
    simp [gaps, h, count_gap_ofBytes]
  · rename_i rest h
    simp [gaps, h]
  · exact Nat.le_refl _

private theorem gaps_read_lt {t : Fragments} {room : Nat} {f : Fault} (h : (t.read room).1 = .fault f)
    (ht : t.closed = true ∨ t.unread ≠ []) : (t.read room).2.gaps < t.gaps := by
  unfold read at h ⊢
  split at h
  · simp at h
  · rename_i rest hq
    simp [gaps, hq]
  · rename_i hq
    rcases ht with ht | ht
    · simp [ht, Reply.ended] at h
    · exact absurd (by simp [unread, hq]) ht

private theorem closed_read (t : Fragments) (room : Nat) : (t.read room).2.closed = t.closed := by
  unfold read
  split <;> rfl

private theorem unread_of_ended {t : Fragments} {room : Nat} (hr : 0 < room) (he : (t.read room).1 = .ended) :
    t.unread = [] := by
  unfold read at he
  split at he
  · simp only [Reply.ended, Reply.data.injEq, List.take_eq_nil_iff, reduceCtorEq, or_false] at he
    omega
  · simp [Reply.ended] at he
  · rename_i hq
    simp [unread, hq]

instance : Script Fragments where
  unread := unread
  delays := gaps
  closed := closed
  Faithful _ := True
  append_unread_read := bytes_read_append_unread
  delays_read_le := gaps_read_le
  delays_read_lt := gaps_read_lt
  closed_read := closed_read
  faithful_read _ _ := trivial
  unread_of_ended _ := unread_of_ended

end Fragments

/-! ### Disturbed scripts -/

namespace Faulty

variable {τ : Type} [Transport τ] [Script τ]

def unread (t : Faulty τ) : Bytes := Script.unread t.transport

/-- A disturbance that was not met yet is a delay. -/
def delays (t : Faulty τ) : Nat := Script.delays t.transport + t.plan.length

/-- The transport below is faithful, and no read is answered as if it had ended. -/
def Faithful (t : Faulty τ) : Prop := Script.Faithful t.transport ∧ ∀ p ∈ t.plan, p.2 ≠ .ended

private theorem append_unread_read (t : Faulty τ) (room : Nat) :
    (t.read room).1.bytes ++ (t.read room).2.unread = t.unread := by
  unfold read
  split
  · simp [unread]
  · exact Script.append_unread_read ..
  · exact Script.append_unread_read ..

private theorem delays_read_le (t : Faulty τ) (room : Nat) : (t.read room).2.delays ≤ t.delays := by
  have h := Script.delays_read_le t.transport room
  unfold read delays
  split
  · rename_i d plan hp
    simp only [hp, List.length_cons]
    omega
  · rename_i n d plan hp
    simp only [hp, List.length_cons]
    omega
  · rename_i hp
    simp only [hp, List.length_nil]
    omega

private theorem delays_read_lt {t : Faulty τ} {room : Nat} {f : Fault} (h : (t.read room).1 = .fault f)
    (ht : Script.closed t.transport = true ∨ t.unread ≠ []) : (t.read room).2.delays < t.delays := by
  unfold read at h ⊢
  unfold delays
  split at h
  · rename_i d plan hp
    simp [hp]
  · rename_i n d plan hp
    have := Script.delays_read_lt h ht
    simp only [hp, List.length_cons]
    omega
  · rename_i hp
    have := Script.delays_read_lt h ht
    simp only [hp, List.length_nil]
    omega

private theorem closed_read (t : Faulty τ) (room : Nat) :
    Script.closed (t.read room).2.transport = Script.closed t.transport := by
  unfold read
  split
  · rfl
  · exact Script.closed_read ..
  · exact Script.closed_read ..

private theorem faithful_read {t : Faulty τ} (h : t.Faithful) (room : Nat) : (t.read room).2.Faithful := by
  obtain ⟨ht, hp⟩ := h
  unfold read
  split
  · rename_i d plan he
    exact ⟨ht, fun p hm => hp p (by simp [he, hm])⟩
  · rename_i n d plan he
    refine ⟨Script.faithful_read ht room, fun p hm => ?_⟩
    rcases List.mem_cons.1 hm with rfl | hm
    · exact hp (n + 1, d) (by simp [he])
    · exact hp p (by simp [he, hm])
  · exact ⟨Script.faithful_read ht room, by simp⟩

private theorem unread_of_ended {t : Faulty τ} (h : t.Faithful) {room : Nat} (hr : 0 < room)
    (he : (t.read room).1 = .ended) : t.unread = [] := by
  obtain ⟨ht, hp⟩ := h
  unfold read at he
  split at he
  · rename_i d plan hq
    cases d with
    | fault f => simp [Disturbance.reply, Reply.ended] at he
    | ended => exact absurd rfl (hp (0, .ended) (by simp [hq]))
  · exact Script.unread_of_ended ht hr he
  · exact Script.unread_of_ended ht hr he

/-- A disturbed read does not reach the transport below, so that no byte of that is lost. -/
instance : Script (Faulty τ) where
  unread := unread
  delays := delays
  closed t := Script.closed t.transport
  Faithful := Faithful
  append_unread_read := append_unread_read
  delays_read_le := delays_read_le
  delays_read_lt := delays_read_lt
  closed_read := closed_read
  faithful_read := faithful_read
  unread_of_ended := unread_of_ended

end Faulty

/-! ### Reading a script past its interruptions -/

def Reply.isFault : Reply → Bool
  | data _ => false
  | fault _ => true

/-- The number of faults with which the transport answered. -/
def faults (es : List Event) : Nat := (replies es).countP Reply.isFault

theorem faults_pos {es : List Event} {f : Fault} (h : lastReply es = some (.fault f)) : 0 < faults es :=
  List.countP_pos_iff.2 ⟨_, List.mem_of_getLast? h, rfl⟩

namespace Script

variable {τ : Type} [Transport τ] [Script τ]

open Transport (Reads poll)

private theorem append_unread_of_reads {t t' : τ} {rs : List Reply} (h : Reads t rs t') :
    rs.flatMap Reply.bytes ++ unread t' = unread t := by
  induction h with
  | nil t => rfl
  | cons room _ ih => rw [List.flatMap_cons, List.append_assoc, ih, append_unread_read]

theorem closed_of_reads {t t' : τ} {rs : List Reply} (h : Reads t rs t') : closed t' = closed t := by
  induction h with
  | nil t => rfl
  | cons room _ ih => exact ih.trans (closed_read _ room)

private theorem faithful_of_reads {t t' : τ} {rs : List Reply} (h : Reads t rs t') (ht : Faithful t) : Faithful t' := by
  induction h with
  | nil t => exact ht
  | cons room _ ih => exact ih (faithful_read ht room)

theorem delays_of_reads {t t' : τ} {rs : List Reply} (h : Reads t rs t') : delays t' ≤ delays t := by
  induction h with
  | nil t => exact Nat.le_refl _
  | cons room _ ih => exact Nat.le_trans ih (delays_read_le _ room)

/-- There is something to wait for: bytes, or the end. -/
def Live (t : τ) : Prop := closed t = true ∨ unread t ≠ []

private theorem live_of_reads {t t' : τ} {rs : List Reply} (h : Reads t rs t') (ht : Live t') : Live t := by
  rcases ht with ht | ht
  · exact .inl (by rwa [closed_of_reads h] at ht)
  · refine .inr ?_
    rw [← append_unread_of_reads h]
    simp [ht]

/-- Every fault is one of the delays. -/
private theorem countP_of_reads {t t' : τ} {rs : List Reply} (h : Reads t rs t') (ht : Live t') :
    rs.countP Reply.isFault + delays t' ≤ delays t := by
  induction h with
  | nil t => simp
  | @cons t t' rs room h ih =>
    have ih := ih ht
    rw [List.countP_cons]
    cases hr : (Transport.read t room).1 with
    | data bs =>
      have := delays_read_le t room
      simp only [Reply.isFault, Bool.false_eq_true, if_false]
      omega
    | fault f =>
      have := delays_read_lt hr (live_of_reads (.cons room h) ht)
      simp only [Reply.isFault, if_true]
      omega

private theorem unread_of_poll_ended {t : τ} (h : Faithful t) {room : Nat} (hr : 0 < room)
    (he : (poll t room).reply = .ended) : unread t = [] := by
  fun_induction poll t room with
  | case1 t r hi p ih =>
    have ha := append_unread_read t room
    rw [ih (faithful_read h room) he, List.append_nil] at ha
    cases hq : (Transport.read t room).1 with
    | data bs => simp [r, hq, Reply.isInterrupted] at hi
    | fault f => rw [← ha, hq, Reply.bytes]
  | case2 t r hi => exact unread_of_ended h hr he

end Script

/-! ### Traces over a script -/

namespace Source

variable {τ : Type} [Transport τ] [Script τ]

/-- What can still be read from a source: its data, and then what the transport has left. -/
def unread (s : Source τ) : Bytes := s.buffer.data ++ Script.unread s.transport

/-- What the transport hands over is taken from the front of what it had. -/
private theorem Trace.received_append_unread {s s' : Source τ} {es : List Event} (h : Trace s es s') :
    received es ++ Script.unread s'.transport = Script.unread s.transport := by
  rw [received_eq]
  exact Script.append_unread_of_reads h.reads

/-- What can still be read is what could be read at first, less what was taken. -/
theorem Trace.unread_eq {s s' : Source τ} {es : List Event} (h : Trace s es s') (hs : s.Consistent) :
    s.unread = consumed es ++ s'.unread := by
  rw [unread, ← h.received_append_unread, ← List.append_assoc, (h.conserves hs).2, unread, List.append_assoc]

/-- Every fault of a trace is one of the delays of the script. -/
theorem Trace.faults_le {s s' : Source τ} {es : List Event} (h : Trace s es s') (ht : Script.Live s'.transport) :
    faults es + Script.delays s'.transport ≤ Script.delays s.transport := Script.countP_of_reads h.reads ht

/-- A source that is honest about its transport: the end was noted only if all bytes were read. -/
def Honest (s : Source τ) : Prop :=
  Script.Faithful s.transport ∧ (s.exhausted = true → Script.unread s.transport = [])

private theorem Honest.congr {s s' : Source τ} (h : s.Honest) (ht : s'.transport = s.transport)
    (hx : s'.exhausted = s.exhausted) : s'.Honest := by
  rw [Honest, ht, hx]
  exact h

private theorem Honest.receive {s : Source τ} (h : s.Honest) (hx : s.exhausted = false) (hr : 0 < s.buffer.space) :
    s.receive.state.Honest := by
  have hreads := Transport.reads_poll s.transport s.buffer.space
  rw [Honest, transport_receive]
  constructor
  · exact Script.faithful_of_reads hreads h.1
  · intro he
    -- The end is noted only if the answer is the end, and there was room for bytes.
    unfold Source.receive at he
    simp only at he
    split at he
    · rename_i hq
      have ha := Script.append_unread_of_reads hreads
      rw [Script.unread_of_poll_ended h.1 hr hq] at ha
      exact (List.append_eq_nil_iff.1 ha).2
    · simp [hx] at he
    · simp [hx] at he

theorem Trace.honest {s s' : Source τ} {es : List Event} (h : Trace s es s') (hs : s.Honest) : s'.Honest := by
  induction h with
  | refl s => exact hs
  | trans _ _ ih ih' => exact ih' (ih hs)
  | recycle s => exact hs.congr s.transport_recycle s.exhausted_recycle
  | clear => exact hs
  | receive hx hr => exact hs.receive hx hr
  | take s n => exact hs.congr (transport_noteUsedUp _) (exhausted_noteUsedUp _)
  | noteUsedUp s => exact hs.congr s.transport_noteUsedUp s.exhausted_noteUsedUp
  | markDraining s => exact hs
  | report s result => exact hs.congr (s.transport_report result) (s.exhausted_report result)
  | log s r => exact hs

end Source

end ChunkedTransfer
