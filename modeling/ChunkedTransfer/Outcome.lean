import ChunkedTransfer.Event

/-!
# Outcomes

An operation on a state gives a value or a fault. In either case it leaves a state, and the events that took place
in their order.
-/

namespace ChunkedTransfer

structure Outcome (σ α : Type) where
  result : Except Fault α
  state : σ
  events : List Event := []

namespace Outcome

variable {σ ρ α β : Type}

/-- The outcome with earlier events put in front of its own. -/
def after (r : Outcome σ α) (events : List Event) : Outcome σ α := { r with events := events ++ r.events }

/-- Goes on with the value and the state, unless there was a fault. -/
def andThen (r : Outcome σ α) (f : α → σ → Outcome σ β) : Outcome σ β :=
  match r.result with
  | .ok a => (f a r.state).after r.events
  | .error e => ⟨.error e, r.state, r.events⟩

def map (f : α → β) (r : Outcome σ α) : Outcome σ β := { r with result := r.result.map f }

def mapState (f : σ → ρ) (r : Outcome σ α) : Outcome ρ α := { r with state := f r.state }

@[simp] theorem result_after (r : Outcome σ α) (es : List Event) : (r.after es).result = r.result := rfl

@[simp] theorem state_after (r : Outcome σ α) (es : List Event) : (r.after es).state = r.state := rfl

@[simp] theorem events_after (r : Outcome σ α) (es : List Event) : (r.after es).events = es ++ r.events := rfl

@[simp] theorem state_map (f : α → β) (r : Outcome σ α) : (r.map f).state = r.state := rfl

theorem mapState_after (f : σ → ρ) (r : Outcome σ α) (es : List Event) :
    (r.after es).mapState f = (r.mapState f).after es := rfl

@[simp] theorem events_map (f : α → β) (r : Outcome σ α) : (r.map f).events = r.events := rfl

theorem andThen_of_ok {r : Outcome σ α} {a : α} (h : r.result = .ok a) (f : α → σ → Outcome σ β) :
    r.andThen f = (f a r.state).after r.events := by
  simp [andThen, h]

theorem andThen_of_error {r : Outcome σ α} {e : Fault} (h : r.result = .error e) (f : α → σ → Outcome σ β) :
    r.andThen f = ⟨.error e, r.state, r.events⟩ := by
  simp [andThen, h]

end Outcome

end ChunkedTransfer
