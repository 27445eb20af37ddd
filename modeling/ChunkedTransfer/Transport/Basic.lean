import ChunkedTransfer.Bytes
import ChunkedTransfer.Fault

/-!
# Transports

A transport gives bytes to whoever asks, up to the room that is offered. It may also answer with a fault: that it
would block, that it was interrupted, or that it failed. An answer without bytes means that the transport has come
to its end.

What a transport has left is bounded by its budget: each byte costs one, and so does each interruption. This is
why asking again after every interruption comes to an end (`poll`).
-/

namespace ChunkedTransfer

inductive Reply
  | data (bytes : Bytes)
  | fault (fault : Fault)
  deriving DecidableEq, Repr, Inhabited

namespace Reply

/-- The answer of a transport that is at its end. -/
def ended : Reply := data []

/-- The bytes that were handed over. -/
def bytes : Reply → Bytes
  | data bs => bs
  | fault _ => []

def isInterrupted : Reply → Bool
  | data _ => false
  | fault f => f.kind = .interrupted

/-- What the answer takes from the budget of its transport. -/
def cost (r : Reply) : Nat := r.bytes.length + r.isInterrupted.toNat

@[simp] theorem cost_data (bs : Bytes) : (data bs).cost = bs.length := by simp [cost, bytes, isInterrupted]

theorem cost_eq_one_of_isInterrupted {r : Reply} (h : r.isInterrupted = true) : r.cost = 1 := by
  cases r <;> simp_all [cost, bytes, isInterrupted]

theorem length_bytes_le_cost (r : Reply) : r.bytes.length ≤ r.cost := by simp [cost]

end Reply

class Transport (τ : Type) where
  /-- One attempt to read into the given room. -/
  read : τ → Nat → Reply × τ
  budget : τ → Nat
  length_read_le (t : τ) (room : Nat) : (read t room).1.bytes.length ≤ room
  cost_read_le (t : τ) (room : Nat) : (read t room).1.cost + budget (read t room).2 ≤ budget t

/-- The answer of a transport that was read again after each interruption. -/
structure Polled (τ : Type) where
  interruptions : List Reply
  reply : Reply
  transport : τ

namespace Polled

variable {τ : Type}

/-- All answers in their order. -/
def replies (p : Polled τ) : List Reply := p.interruptions ++ [p.reply]

end Polled

namespace Transport

variable {τ : Type} [Transport τ]

/-- Reads until the answer is not an interruption. -/
def poll (t : τ) (room : Nat) : Polled τ :=
  let r := read t room
  if r.1.isInterrupted then
    let p := poll r.2 room
    { p with interruptions := r.1 :: p.interruptions }
  else
    ⟨[], r.1, r.2⟩
termination_by budget t
decreasing_by
  rename_i h
  have := cost_read_le t room
  rw [Reply.cost_eq_one_of_isInterrupted h] at this
  omega

theorem poll_of_not_isInterrupted {t : τ} {room : Nat} (h : (read t room).1.isInterrupted = false) :
    poll t room = ⟨[], (read t room).1, (read t room).2⟩ := by
  rw [poll, if_neg (by simp [h])]

theorem not_isInterrupted_poll (t : τ) (room : Nat) : (poll t room).reply.isInterrupted = false := by
  fun_induction poll t room with
  | case1 t r h p ih => exact ih
  | case2 t r h => simpa using h

theorem length_poll_le (t : τ) (room : Nat) : (poll t room).reply.bytes.length ≤ room := by
  fun_induction poll t room with
  | case1 t r h p ih => exact ih
  | case2 t r h => exact length_read_le t room

theorem cost_poll_le (t : τ) (room : Nat) :
    (poll t room).interruptions.length + (poll t room).reply.cost + budget (poll t room).transport ≤ budget t := by
  fun_induction poll t room with
  | case1 t r h p ih =>
    have := cost_read_le t room
    rw [Reply.cost_eq_one_of_isInterrupted h] at this
    simp only [List.length_cons, p, r] at ih ⊢
    omega
  | case2 t r h => simpa using cost_read_le t room

end Transport

end ChunkedTransfer
