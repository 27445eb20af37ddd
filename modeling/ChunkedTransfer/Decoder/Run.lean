import ChunkedTransfer.Decoder.Drain

/-!
# Runs

Whoever holds a decoder may read from it, and may also use the source below it: refill it before it has run dry,
take bytes past the decoder, or put the decoder of the next body in its place. A run is a row of such operations.
-/

namespace ChunkedTransfer

/-- An operation on a decoder or on the source below it. -/
inductive Operation
  | read (room : Nat)
  | refill
  /-- Takes bytes out of the source. -/
  | take (room : Nat)
  | replenish
  | noteUsedUp
  /-- Says of the buffer that it holds bytes to be used. -/
  | markDraining
  /-- Goes on with the body that follows. -/
  | next (limits : Limits)
  deriving DecidableEq, Repr

/-- What an operation gives. -/
inductive Answer
  | progress (progress : Progress Bytes)
  | refilled (any : Bool)
  | taken (bytes : Bytes)
  | available (count : Nat)
  | done
  deriving DecidableEq, Repr

namespace Answer

/-- The payload that the decoder handed over. -/
def payload : Answer → Bytes
  | progress (.read payload) => payload
  | _ => []

end Answer

namespace Decoder

variable {τ α : Type}

/-- The outcome of an operation on the source as one of the decoder above it. -/
def onSource (d : Decoder τ) (f : α → Answer) (r : Outcome (Source τ) α) :
    Outcome (Decoder τ) Answer :=
  (r.map f).mapState fun source => { d with source }

variable [Transport τ]

def perform (δ : Dialect) (d : Decoder τ) : Operation → Outcome (Decoder τ) Answer
  | .read room => (d.read δ room).map .progress
  | .refill => d.onSource .refilled d.source.refill
  | .take room => d.onSource .taken (d.source.read room)
  | .replenish => d.onSource .available d.source.replenish
  | .noteUsedUp => ⟨.ok .done, { d with source := d.source.noteUsedUp }, []⟩
  | .markDraining => ⟨.ok .done, { d with source := { d.source with flag := .draining } }, []⟩
  | .next limits => ⟨.ok .done, d.next limits, []⟩

/-- The outcomes of the operations in their order. -/
def run (δ : Dialect) : Decoder τ → List Operation → List (Outcome (Decoder τ) Answer)
  | _, [] => []
  | d, op :: ops => d.perform δ op :: run δ (d.perform δ op).state ops

/-- The decoder after the operations. -/
def finish (δ : Dialect) (d : Decoder τ) (ops : List Operation) : Decoder τ :=
  ops.foldl (fun d op => (d.perform δ op).state) d

@[simp] theorem run_nil (δ : Dialect) (d : Decoder τ) : d.run δ [] = [] := rfl

@[simp] theorem run_cons (δ : Dialect) (d : Decoder τ) (op : Operation) (ops : List Operation) :
    d.run δ (op :: ops) = d.perform δ op :: (d.perform δ op).state.run δ ops := rfl

@[simp] theorem finish_nil (δ : Dialect) (d : Decoder τ) : d.finish δ [] = d := rfl

@[simp] theorem finish_cons (δ : Dialect) (d : Decoder τ) (op : Operation) (ops : List Operation) :
    d.finish δ (op :: ops) = (d.perform δ op).state.finish δ ops := rfl

theorem finish_append (δ : Dialect) (d : Decoder τ) (ops rest : List Operation) :
    d.finish δ (ops ++ rest) = (d.finish δ ops).finish δ rest := List.foldl_append

theorem run_append (δ : Dialect) (d : Decoder τ) (ops rest : List Operation) :
    d.run δ (ops ++ rest) = d.run δ ops ++ (d.finish δ ops).run δ rest := by
  induction ops generalizing d with
  | nil => rfl
  | cons op ops ih => simp [ih]

end Decoder

/-- The payload that was handed over in a run. -/
def delivered {σ : Type} (run : List (Outcome σ Answer)) : Bytes :=
  run.flatMap fun r => match r.result with
    | .ok a => a.payload
    | .error _ => []

end ChunkedTransfer
