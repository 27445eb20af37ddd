import ChunkedTransfer.Transport.Basic

/-!
# Faulty transports

A transport some of whose reads are disturbed: they do not reach it, and are answered with a fault, or as if it
had ended. Which reads are disturbed is planned in advance.
-/

namespace ChunkedTransfer

/-- The answer of a disturbed read. -/
inductive Disturbance
  | fault (fault : Fault)
  | ended
  deriving DecidableEq, Repr, Inhabited

def Disturbance.reply : Disturbance → Reply
  | fault f => .fault f
  | ended => .ended

/-- The disturbances in their order, each with the number of undisturbed reads that come before it. -/
abbrev FaultPlan := List (Nat × Disturbance)

namespace FaultPlan

/-- Disturbs the read of the given index, counted from zero. A disturbance planned there before is replaced. -/
def disturb (index : Nat) (d : Disturbance) : FaultPlan → FaultPlan
  | [] => [(index, d)]
  | (n, e) :: plan =>
    if index < n then (index, d) :: (n - index - 1, e) :: plan
    else if index = n then (n, d) :: plan
    else (n, e) :: disturb (index - n - 1) d plan

def ofList (ds : List (Nat × Disturbance)) : FaultPlan :=
  ds.foldl (fun plan d => disturb d.1 d.2 plan) []

end FaultPlan

structure Faulty (τ : Type) where
  transport : τ
  plan : FaultPlan := []
  deriving DecidableEq, Repr

namespace Faulty

variable {τ : Type} [Transport τ]

def read (t : Faulty τ) (room : Nat) : Reply × Faulty τ :=
  match t.plan with
  | (0, d) :: plan => (d.reply, { t with plan })
  | (n + 1, d) :: plan =>
    let r := Transport.read t.transport room
    (r.1, ⟨r.2, (n, d) :: plan⟩)
  | [] =>
    let r := Transport.read t.transport room
    (r.1, ⟨r.2, []⟩)

@[simp] theorem bytes_reply (d : Disturbance) : d.reply.bytes = [] := by cases d <;> rfl

private theorem cost_reply_le (d : Disturbance) : d.reply.cost ≤ 1 := by
  cases d with
  | fault f => simp only [Disturbance.reply, Reply.cost, Reply.bytes]; cases (Reply.fault f).isInterrupted <;> simp
  | ended => simp [Disturbance.reply, Reply.ended]

/-- A byte costs one, and a disturbance that was not met yet does too. -/
instance : Transport (Faulty τ) where
  read := read
  budget t := Transport.budget t.transport + t.plan.length
  length_read_le t room := by
    unfold read
    split
    · simp
    · exact Transport.length_read_le ..
    · exact Transport.length_read_le ..
  cost_read_le t room := by
    have h := Transport.cost_read_le t.transport room
    unfold read
    split
    · rename_i d plan hp
      have := cost_reply_le d
      simp only [hp, List.length_cons]
      omega
    · rename_i n d plan hp
      simp only [hp, List.length_cons]
      omega
    · rename_i hp
      simp only [hp, List.length_nil]
      omega

end Faulty

end ChunkedTransfer
