import TensorLowering.Error

namespace TensorLowering

/-- Work on a state that may fail. A failure keeps the state it was met in: what was done before it
stays done. -/
abbrev Attempt (σ α : Type) := EStateM LoweringError σ α

/-- Puts a question to the state, which stays as it is. -/
def ask {σ α : Type} (question : σ → Except LoweringError α) : Attempt σ α := fun state =>
  match question state with
  | .ok answer => .ok answer state
  | .error error => .error error state

/-- Treats the items from left to right, stops at the first failure, and adds up what each of them
counts. -/
def sweep {σ α : Type} (treat : α → Attempt σ Nat) : List α → Attempt σ Nat
  | [] => pure 0
  | item :: rest => do
    let here ← treat item
    let later ← sweep treat rest
    return here + later

def Attempt.within {σ τ α : Type} (part : τ → σ) (replace : τ → σ → τ) (work : Attempt σ α) :
    Attempt τ α := fun whole =>
  match work (part whole) with
  | .ok result after => .ok result (replace whole after)
  | .error error after => .error error (replace whole after)

/-- The state that work leaves behind, whether it succeeds or fails. -/
def Attempt.state {σ α : Type} (work : Attempt σ α) (state : σ) : σ :=
  match work state with
  | .ok _ after => after
  | .error _ after => after

end TensorLowering
