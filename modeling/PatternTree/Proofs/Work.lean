namespace PatternTree

/-- What becomes of work on a state. -/
inductive Outcome (ε σ α : Type) where
  /-- Something impossible was asked for, or the work goes on for ever. -/
  | broken
  /-- An error is reported. -/
  | failed (error : ε)
  /-- There is a value, and work may go on from a state. -/
  | done (value : α) (state : σ)
  deriving DecidableEq, Repr

namespace Outcome

variable {ε σ α β : Type}

/-- Goes on with the value from the state behind it. -/
def andThen (outcome : Outcome ε σ α) (next : α → σ → Outcome ε σ β) : Outcome ε σ β :=
  match outcome with
  | broken => broken
  | failed error => failed error
  | done value state => next value state

@[simp] theorem failed_andThen (error : ε) (next : α → σ → Outcome ε σ β) :
    (failed error : Outcome ε σ α).andThen next = failed error := rfl

@[simp] theorem done_andThen (value : α) (state : σ) (next : α → σ → Outcome ε σ β) :
    (done value state : Outcome ε σ α).andThen next = next value state := rfl

/-- What is known of an outcome that is not broken. -/
def Meets (outcome : Outcome ε σ α) (Fails : ε → Prop) (Done : α → σ → Prop) : Prop :=
  match outcome with
  | broken => False
  | failed error => Fails error
  | done value state => Done value state

theorem Meets.andThen {outcome : Outcome ε σ α} {next : α → σ → Outcome ε σ β}
    {Fails : ε → Prop} {Done : α → σ → Prop} {Done' : β → σ → Prop}
    (hmeets : outcome.Meets Fails Done)
    (hnext : ∀ value state, Done value state → (next value state).Meets Fails Done') :
    (outcome.andThen next).Meets Fails Done' := by
  cases outcome with
  | broken => exact hmeets
  | failed error => exact hmeets
  | done value state => exact hnext value state hmeets

theorem Meets.imp {outcome : Outcome ε σ α} {Fails : ε → Prop} {Done Done' : α → σ → Prop}
    (hmeets : outcome.Meets Fails Done)
    (himp : ∀ value state, Done value state → Done' value state) :
    outcome.Meets Fails Done' := by
  cases outcome with
  | broken => exact hmeets
  | failed error => exact hmeets
  | done value state => exact himp value state hmeets

end Outcome

/-- Work on a state for which something fixed is given. -/
def Work (ρ σ ε α : Type) : Type :=
  ρ → σ → Outcome ε σ α

/-- How one turn of a loop ends. -/
inductive Turn (τ α : Type) where
  | again (next : τ)
  | leave (value : α)

namespace Work

variable {ρ σ ε α β : Type}

instance : Monad (Work ρ σ ε) where
  pure value := fun _ state => .done value state
  bind work next := fun input state =>
    (work input state).andThen fun value state => next value input state

variable (input : ρ) (state : σ)

@[simp] theorem pure_apply (value : α) :
    (pure value : Work ρ σ ε α) input state = .done value state := rfl

@[simp] theorem bind_apply (work : Work ρ σ ε α) (next : α → Work ρ σ ε β) :
    (work >>= next) input state =
      (work input state).andThen fun value state => next value input state := rfl

/-- Gives up where nothing sensible can be done. -/
def broken : Work ρ σ ε α := fun _ _ => .broken

/-- Reports an error. -/
def fail (error : ε) : Work ρ σ ε α := fun _ _ => .failed error

/-- Goes on with a value that may not exist. -/
def demand : Option α → Work ρ σ ε α
  | none => broken
  | some value => pure value

/-- What is given. -/
def given : Work ρ σ ε ρ := fun given state => .done given state

/-- The state. -/
def get : Work ρ σ ε σ := fun _ state => .done state state

/-- Changes the state. -/
def modify (change : σ → σ) : Work ρ σ ε Unit := fun _ state => .done () (change state)

@[simp] theorem fail_apply (error : ε) :
    (fail error : Work ρ σ ε α) input state = .failed error := rfl

@[simp] theorem broken_apply : (broken : Work ρ σ ε α) input state = .broken := rfl

@[simp] theorem demand_none : (demand none : Work ρ σ ε α) = broken := rfl

@[simp] theorem demand_some (value : α) : (demand (some value) : Work ρ σ ε α) = pure value := rfl

@[simp] theorem given_apply : (given : Work ρ σ ε ρ) input state = .done input state := rfl

@[simp] theorem get_apply : (get : Work ρ σ ε σ) input state = .done state state := rfl

@[simp] theorem modify_apply (change : σ → σ) :
    (modify change : Work ρ σ ε Unit) input state = .done () (change state) := rfl

/-- Repeats the body of a loop until it is left, for a number of turns at most. A loop that takes
    more of them is taken to go on for ever. -/
def turns {τ : Type} (body : τ → Work ρ σ ε (Turn τ α)) : Nat → τ → Work ρ σ ε α
  | 0, _ => broken
  | count + 1, current => do
    match ← body current with
    | .again next => turns body count next
    | .leave value => return value

end Work

end PatternTree
