import ChunkedTransfer.Transport.Fragments

/-!
# Replaying

Fragments and gaps are queued and read again, in whatever order this is asked for. A reader sees the bytes of the
fragments, and it sees a gap as a read that blocks. What was seen so far and what is still queued are together the bytes
and the gaps that were queued, in their order (`Fragments.replays`).

At all times the script of all calls was played up to some place in it (`Fragments.Reached`). Before the place are whole
pieces, and then those bytes of one fragment that were read. The queue starts with what is left of that fragment.
-/

namespace ChunkedTransfer

namespace Fragments

/-- What is asked of fragments. -/
inductive Call
  | push (bytes : Bytes)
  | gap
  | close
  | read (room : Nat)
  deriving DecidableEq, Repr

/-- What a reader sees of a script. -/
inductive Mark
  | byte (value : UInt8)
  | gap
  deriving DecidableEq, Repr

def Mark.bytes : Mark → Bytes
  | byte b => [b]
  | gap => []

end Fragments

open Fragments (Call Mark)

def Piece.marks : Piece → List Mark
  | fragment b bs => (b :: bs).map .byte
  | gap => [.gap]

namespace Fragments

namespace Call

/-- The bytes that are queued by the call. -/
def bytes : Call → Bytes
  | push bs => bs
  | gap | close | read _ => []

/-- The bytes and the gaps that are queued by the call. -/
def marks : Call → List Mark
  | push bs => bs.map .byte
  | gap => [.gap]
  | close | read _ => []

private def pieces : Call → List Piece
  | push bs => Piece.ofBytes bs
  | gap => [.gap]
  | close | read _ => []

end Call

/-- The bytes and the gaps that are left. -/
def marks (t : Fragments) : List Mark := t.queue.flatMap Piece.marks

def perform (t : Fragments) : Call → Fragments
  | .push bs => t.push bs
  | .gap => t.gap
  | .close => t.close
  | .read room => (t.read room).2

/-- The bytes that are handed over by a call. -/
def handed (t : Fragments) : Call → Bytes
  | .read room => (t.read room).1.bytes
  | .push _ | .gap | .close => []

/-- What a reader sees by a call. A read that blocks is a gap as long as anything is queued. -/
def spent (t : Fragments) : Call → List Mark
  | .read room =>
    match (t.read room).1 with
    | .data bs => bs.map .byte
    | .fault f => if f = .wouldBlock ∧ t.isEmpty = false then [.gap] else []
  | .push _ | .gap | .close => []

/-- The fragments after a row of calls. -/
def finish (t : Fragments) (calls : List Call) : Fragments := calls.foldl perform t

def delivered (t : Fragments) : List Call → Bytes
  | [] => []
  | c :: cs => t.handed c ++ (t.perform c).delivered cs

def played (t : Fragments) : List Call → List Mark
  | [] => []
  | c :: cs => t.spent c ++ (t.perform c).played cs

/-! ### Marks and bytes -/

@[simp] theorem flatMap_marks_ofBytes (bs : Bytes) : (Piece.ofBytes bs).flatMap Piece.marks = bs.map .byte := by
  cases bs <;> simp [Piece.ofBytes, Piece.marks]

@[simp] theorem flatMap_bytes_map_byte (bs : Bytes) : (bs.map Mark.byte).flatMap Mark.bytes = bs := by
  rw [List.flatMap_map]
  exact List.flatMap_singleton' bs

private theorem flatMap_bytes_marks (p : Piece) : p.marks.flatMap Mark.bytes = p.bytes := by
  cases p with
  | fragment b bs => exact flatMap_bytes_map_byte (b :: bs)
  | gap => rfl

private theorem Call.flatMap_marks_pieces (c : Call) : c.pieces.flatMap Piece.marks = c.marks := by
  cases c with
  | push bs => exact flatMap_marks_ofBytes bs
  | gap => rfl
  | close => rfl
  | read room => rfl

private theorem Call.flatMap_bytes_pieces (c : Call) : c.pieces.flatMap Piece.bytes = c.bytes := by
  cases c with
  | push bs => exact flatMap_bytes_ofBytes bs
  | gap => rfl
  | close => rfl
  | read room => rfl

/-- The bytes of a script are those of its marks. -/
private theorem bytes_script (ps : List Piece) :
    (ps.flatMap Piece.marks).flatMap Mark.bytes = ps.flatMap Piece.bytes := by
  simp only [List.flatMap_assoc, flatMap_bytes_marks]

private theorem marks_calls (calls : List Call) :
    (calls.flatMap Call.pieces).flatMap Piece.marks = calls.flatMap Call.marks := by
  simp only [List.flatMap_assoc, Call.flatMap_marks_pieces]

private theorem bytes_calls (calls : List Call) :
    (calls.flatMap Call.pieces).flatMap Piece.bytes = calls.flatMap Call.bytes := by
  simp only [List.flatMap_assoc, Call.flatMap_bytes_pieces]

private theorem flatMap_bytes_spent (t : Fragments) (c : Call) : (t.spent c).flatMap Mark.bytes = t.handed c := by
  cases c with
  | push bs => rfl
  | gap => rfl
  | close => rfl
  | read room =>
    simp only [spent, handed]
    cases (t.read room).1 with
    | data bs => exact flatMap_bytes_map_byte bs
    | fault f => by_cases hf : f = .wouldBlock ∧ t.isEmpty = false <;> simp [hf, Mark.bytes, Reply.bytes]

private theorem flatMap_bytes_played (t : Fragments) (calls : List Call) :
    (t.played calls).flatMap Mark.bytes = t.delivered calls := by
  induction calls generalizing t with
  | nil => rfl
  | cons c cs ih => rw [played, delivered, List.flatMap_append, flatMap_bytes_spent, ih]

private theorem isEmpty_iff (t : Fragments) : t.isEmpty = true ↔ t.unread = [] ∧ .gap ∉ t.marks := by
  unfold isEmpty unread marks
  cases t.queue with
  | nil => simp
  | cons p rest =>
    cases p with
    -- No fragment of a script is empty.
    | fragment b bs => simp [Piece.bytes]
    | gap => simp [Piece.marks]

/-! ### The place that was reached -/

/-- All of `past` was played, and of the fragment behind it the bytes `used`, so that `unused` is left. -/
def Reached (script queue : List Piece) (played : List Mark) : Prop :=
  ∃ past used unused rest, script = past ++ Piece.ofBytes (used ++ unused) ++ rest ∧
    queue = Piece.ofBytes unused ++ rest ∧ played = past.flatMap Piece.marks ++ used.map .byte

variable {script queue rest : List Piece} {seen : List Mark} {b : UInt8} {bs : Bytes}

private theorem reached_nil : Reached [] [] [] := ⟨[], [], [], [], rfl, rfl, rfl⟩

namespace Reached

private theorem append (h : Reached script queue seen) (ps : List Piece) :
    Reached (script ++ ps) (queue ++ ps) seen := by
  obtain ⟨past, used, unused, rest, rfl, rfl, rfl⟩ := h
  exact ⟨past, used, unused, rest ++ ps, by simp, by simp, rfl⟩

/-- A fragment at the front of the queue is what is left of one of the script, or that fragment itself. -/
private theorem of_fragment (h : Reached script (.fragment b bs :: rest) seen) :
    ∃ past used, script = past ++ Piece.ofBytes (used ++ b :: bs) ++ rest ∧
      seen = past.flatMap Piece.marks ++ used.map .byte := by
  obtain ⟨past, used, unused, rest', hscript, hqueue, hseen⟩ := h
  cases unused with
  -- The fragment that was read before is used up, so that this one was not read at all.
  | nil =>
    refine ⟨past ++ Piece.ofBytes used, [], ?_, ?_⟩
    · rw [List.append_nil] at hscript
      rw [hscript]
      simp only [Piece.ofBytes, List.nil_append] at hqueue ⊢
      rw [← hqueue, List.append_assoc, List.append_assoc, List.singleton_append, ← List.append_assoc]
    · simp [hseen]
  | cons c cs =>
    simp only [Piece.ofBytes, List.singleton_append, List.cons.injEq, Piece.fragment.injEq] at hqueue
    obtain ⟨⟨rfl, rfl⟩, rfl⟩ := hqueue
    exact ⟨past, used, hscript, hseen⟩

/-- With a gap at the front of the queue, the place is between two pieces. -/
private theorem of_gap (h : Reached script (.gap :: rest) seen) :
    ∃ past, script = past ++ .gap :: rest ∧ seen = past.flatMap Piece.marks := by
  obtain ⟨past, used, unused, rest', hscript, hqueue, hseen⟩ := h
  cases unused with
  | nil =>
    simp only [Piece.ofBytes, List.nil_append] at hqueue
    exact ⟨past ++ Piece.ofBytes used, by simp [hscript, hqueue], by simp [hseen]⟩
  | cons c cs => simp [Piece.ofBytes] at hqueue

private theorem marks_eq (h : Reached script queue seen) :
    seen ++ queue.flatMap Piece.marks = script.flatMap Piece.marks := by
  obtain ⟨past, used, unused, rest, rfl, rfl, rfl⟩ := h
  simp

end Reached

/-- A read goes on from the place that was reached. -/
private theorem reached_read (t : Fragments) (h : Reached script t.queue seen) (room : Nat) :
    Reached script (t.read room).2.queue (seen ++ t.spent (.read room)) := by
  unfold spent read
  cases hq : t.queue with
  -- A read of an empty queue may block, but it takes nothing from the script.
  | nil =>
    rw [hq] at h
    cases t.closed <;> simpa [Reply.ended, isEmpty, hq] using h
  | cons p rest =>
    rw [hq] at h
    cases p with
    | fragment b bs =>
      obtain ⟨past, used, hscript, hseen⟩ := h.of_fragment
      have htake : used ++ (b :: bs).take room ++ (b :: bs).drop room = used ++ b :: bs := by
        rw [List.append_assoc, List.take_append_drop]
      refine ⟨past, used ++ (b :: bs).take room, (b :: bs).drop room, rest, ?_, rfl, ?_⟩
      · rw [htake, hscript]
      · rw [hseen, List.map_append, List.append_assoc]
    | gap =>
      obtain ⟨past, hscript, hseen⟩ := h.of_gap
      refine ⟨past ++ [.gap], [], [], rest, ?_, rfl, ?_⟩
      · simp [hscript, Piece.ofBytes]
      · simp [hseen, isEmpty, hq, Piece.marks]

private theorem reached_perform (t : Fragments) (h : Reached script t.queue seen) (c : Call) :
    Reached (script ++ c.pieces) (t.perform c).queue (seen ++ t.spent c) := by
  cases c with
  | push bs =>
    rw [spent, List.append_nil]
    exact h.append (Piece.ofBytes bs)
  | gap =>
    rw [spent, List.append_nil]
    exact h.append [.gap]
  | close =>
    rw [spent, List.append_nil, Call.pieces, List.append_nil]
    exact h
  | read room =>
    rw [Call.pieces, List.append_nil]
    exact t.reached_read h room

private theorem reached_finish (t : Fragments) (h : Reached script t.queue seen) (calls : List Call) :
    Reached (script ++ calls.flatMap Call.pieces) (t.finish calls).queue (seen ++ t.played calls) := by
  induction calls generalizing t script seen with
  | nil =>
    rw [played, List.flatMap_nil, List.append_nil, List.append_nil]
    exact h
  | cons c cs ih =>
    rw [played, List.flatMap_cons, ← List.append_assoc, ← List.append_assoc]
    exact ih (t.perform c) (t.reached_perform h c)

private theorem closed_finish (t : Fragments) (calls : List Call) :
    (t.finish calls).closed = true ↔ t.closed = true ∨ .close ∈ calls := by
  induction calls generalizing t with
  | nil => simp [finish]
  | cons c cs ih =>
    have hstep := ih (t.perform c)
    change (t.finish (c :: cs)).closed = true ↔ _ at hstep
    rw [hstep]
    cases c with
    | push bs => simp [perform, push]
    | gap => simp [perform, gap]
    | close => simp [perform, close]
    | read room =>
      have hclosed : (t.read room).2.closed = t.closed := by
        unfold read
        split <;> rfl
      simp [perform, hclosed]

/-! ### The call that queued a fragment -/

private theorem Call.pieces_eq (c : Call) : c.pieces = [] ∨ ∃ p, c.pieces = [p] := by
  cases c with
  | push bs => cases bs <;> simp [pieces, Piece.ofBytes]
  | gap => simp [pieces]
  | close => simp [pieces]
  | read room => simp [pieces]

private theorem Call.eq_push {c : Call} (h : c.pieces = [.fragment b bs]) : c = .push (b :: bs) := by
  cases c with
  | push cs => cases cs <;> simp_all [pieces, Piece.ofBytes]
  | gap => simp [pieces] at h
  | close => simp [pieces] at h
  | read room => simp [pieces] at h

private theorem exists_push {calls : List Call} {past : List Piece}
    (h : calls.flatMap Call.pieces = past ++ .fragment b bs :: rest) :
    ∃ before after, calls = before ++ .push (b :: bs) :: after ∧ before.flatMap Call.pieces = past := by
  induction calls generalizing past with
  | nil => simp at h
  | cons c cs ih =>
    rw [List.flatMap_cons] at h
    rcases c.pieces_eq with hc | ⟨p, hc⟩
    · rw [hc, List.nil_append] at h
      obtain ⟨before, after, rfl, hbefore⟩ := ih h
      exact ⟨c :: before, after, rfl, by simp [hc, hbefore]⟩
    · rw [hc, List.singleton_append] at h
      cases past with
      | nil =>
        rw [List.nil_append, List.cons.injEq] at h
        rw [h.1] at hc
        exact ⟨[], cs, by simp [Call.eq_push hc], rfl⟩
      | cons q past =>
        rw [List.cons_append, List.cons.injEq] at h
        obtain ⟨before, after, rfl, hbefore⟩ := ih h.2
        exact ⟨c :: before, after, rfl, by simp [hc, hbefore, h.1]⟩

private theorem Reached.exists_push_of_read {calls : List Call} {t : Fragments}
    (h : Reached (calls.flatMap Call.pieces) t.queue seen) {room : Nat} (hread : (t.read room).1.bytes ≠ []) :
    ∃ before fragment after used unused, calls = before ++ .push fragment :: after ∧
      fragment = used ++ (t.read room).1.bytes ++ unused ∧
        seen.flatMap Mark.bytes = before.flatMap Call.bytes ++ used := by
  cases hq : t.queue with
  | nil => cases hc : t.closed <;> simp [read, hq, hc, Reply.ended, Reply.bytes] at hread
  | cons p rest =>
    rw [hq] at h
    cases p with
    | gap => simp [read, hq, Reply.bytes] at hread
    | fragment b bs =>
      obtain ⟨past, used, hscript, hseen⟩ := h.of_fragment
      have hbytes : (t.read room).1.bytes = (b :: bs).take room := by
        unfold read
        rw [hq]
        rfl
      have hcons : used ++ b :: bs ≠ [] := by simp
      obtain ⟨c, cs, hfragment⟩ := List.exists_cons_of_ne_nil hcons
      rw [hfragment, List.append_assoc] at hscript
      obtain ⟨before, after, hcalls, hbefore⟩ := exists_push hscript
      refine ⟨before, c :: cs, after, used, (b :: bs).drop room, hcalls, ?_, ?_⟩
      · rw [← hfragment, hbytes, List.append_assoc, List.take_append_drop]
      · rw [hseen, List.flatMap_append, bytes_script, flatMap_bytes_map_byte, ← hbefore,
          bytes_calls]

/-! ### Replies -/

private theorem read_eq_ended_iff (t : Fragments) {room : Nat} (hroom : 0 < room) :
    (t.read room).1 = .ended ↔ t.isEmpty = true ∧ t.closed = true := by
  unfold read isEmpty
  cases t.queue with
  | nil => cases t.closed <;> simp [Reply.ended]
  | cons p rest =>
    cases p with
    | fragment b bs =>
      have : room ≠ 0 := by omega
      simp [Reply.ended, this]
    | gap => simp [Reply.ended]

private theorem read_eq_wouldBlock_iff (t : Fragments) (room : Nat) :
    (t.read room).1 = .fault .wouldBlock ↔
      t.marks.head? = some .gap ∨ (t.isEmpty = true ∧ t.closed = false) := by
  unfold read isEmpty marks
  cases t.queue with
  | nil => cases t.closed <;> simp [Reply.ended]
  | cons p rest => cases p <;> simp [Piece.marks]

private theorem eq_wouldBlock_of_read {t : Fragments} {room : Nat} {f : Fault} (h : (t.read room).1 = .fault f) :
    f = .wouldBlock := by
  unfold read at h
  split at h
  · cases h
  · cases h
    rfl
  · split at h <;> cases h
    rfl

/-- What a row of calls came to, that started with nothing queued. -/
structure Replayed (calls : List Call) (played : List Mark) (delivered : Bytes) (t : Fragments) : Prop where
  /-- Each gap is met once, behind all bytes that were queued before it and ahead of all that were queued after it. -/
  marks_eq : played ++ t.marks = calls.flatMap Call.marks
  bytes_eq : delivered ++ t.unread = calls.flatMap Call.bytes
  isEmpty_iff : t.isEmpty = true ↔ t.unread = [] ∧ .gap ∉ t.marks
  length_le : ∀ room, (t.read room).1.bytes.length ≤ room
  /-- The bytes of one read stand together in one fragment, where those that were read before end. -/
  of_fragment : ∀ room, (t.read room).1.bytes ≠ [] → ∃ before fragment after used unused,
    calls = before ++ .push fragment :: after ∧ fragment = used ++ (t.read room).1.bytes ++ unused ∧
      delivered = before.flatMap Call.bytes ++ used
  ended_iff : ∀ room, 0 < room → ((t.read room).1 = .ended ↔ t.isEmpty = true ∧ .close ∈ calls)
  wouldBlock_iff : ∀ room, (t.read room).1 = .fault .wouldBlock ↔
    t.marks.head? = some .gap ∨ (t.isEmpty = true ∧ .close ∉ calls)
  eq_wouldBlock : ∀ room f, (t.read room).1 = .fault f → f = .wouldBlock

/-- After any row of pushes, gaps, closings and reads, whatever room these had, the script was replayed as it was
queued. -/
theorem replays (calls : List Call) :
    Replayed calls (played {} calls) (delivered {} calls) (finish {} calls) := by
  have hreached : Reached (calls.flatMap Call.pieces) (finish {} calls).queue (played {} calls) :=
    reached_finish {} reached_nil calls
  have hmarks : played {} calls ++ (finish {} calls).marks = calls.flatMap Call.marks := by
    rw [← marks_calls]
    exact hreached.marks_eq
  have hbytes : delivered {} calls ++ (finish {} calls).unread = calls.flatMap Call.bytes := by
    calc delivered {} calls ++ (finish {} calls).unread
        = (played {} calls ++ (finish {} calls).marks).flatMap Mark.bytes := by
          rw [List.flatMap_append, flatMap_bytes_played, marks, bytes_script, unread]
      _ = (calls.flatMap Call.marks).flatMap Mark.bytes := by rw [hmarks]
      _ = calls.flatMap Call.bytes := by rw [← marks_calls, bytes_script, bytes_calls]
  have hclosed : (finish {} calls).closed = true ↔ .close ∈ calls := by simp [closed_finish]
  exact {
    marks_eq := hmarks
    bytes_eq := hbytes
    isEmpty_iff := isEmpty_iff _
    length_le := length_bytes_read_le _
    of_fragment := by
      intro room hread
      rw [← flatMap_bytes_played]
      exact hreached.exists_push_of_read hread
    ended_iff := by
      intro room hroom
      rw [read_eq_ended_iff _ hroom, hclosed]
    wouldBlock_iff := by
      intro room
      rw [read_eq_wouldBlock_iff, ← hclosed, Bool.not_eq_true]
    eq_wouldBlock := fun _ _ => eq_wouldBlock_of_read }

example :
    played {} [.push [1, 2, 3], .gap, .read 2, .push [4], .read 5, .read 0, .read 0, .close, .read 1, .read 1] =
      [.byte 1, .byte 2, .byte 3, .gap, .byte 4] := by
  decide

end Fragments

end ChunkedTransfer
