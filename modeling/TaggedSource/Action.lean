/-
Actions. An action runs on a state and leaves an outcome: a result or a
failure, the events that it logged, and the state that it ended in. A
failure ends the action but takes back neither the log nor the state.
-/
import TaggedSource.Log

namespace TaggedSource

/-- What an action leaves behind. -/
structure Outcome (σ α : Type) where
  /-- The result, or why there is none. -/
  result : Except Failure α
  /-- The events, in the order in which they happened. -/
  log : List Log.Event
  /-- The state at the end. -/
  state : σ

/-- Something to do on a state. -/
def Action (σ α : Type) : Type := σ → Outcome σ α

namespace Action

variable {σ τ α β : Type}

/-- Runs an action. -/
def run (a : Action σ α) (s : σ) : Outcome σ α := a s

/-- Does nothing. -/
def done (x : α) : Action σ α := fun s => ⟨.ok x, [], s⟩

/-- Runs one action and then, unless it failed, another on its result. -/
def andThen (a : Action σ α) (f : α → Action σ β) : Action σ β := fun s =>
  let first := a.run s
  match first.result with
  | .error cause => ⟨.error cause, first.log, first.state⟩
  | .ok x =>
    let second := (f x).run first.state
    ⟨second.result, first.log ++ second.log, second.state⟩

instance : Monad (Action σ) where
  pure := done
  bind := andThen

/-- Fails. -/
def fail (cause : Failure) : Action σ α := fun s => ⟨.error cause, [], s⟩

/-- Logs events. -/
def log (events : List Log.Event) : Action σ Unit := fun s => ⟨.ok (), events, s⟩

/-- The state. -/
def get : Action σ σ := fun s => ⟨.ok s, [], s⟩

/-- Puts a state in the place of the state. -/
def set (s : σ) : Action σ Unit := fun _ => ⟨.ok (), [], s⟩

/-- Takes a result, or fails. -/
def ofExcept : Except Failure α → Action σ α
  | .ok x => done x
  | .error cause => fail cause

/-- Runs an action on a part of the state. -/
def onPart (part : σ → τ) (withPart : σ → τ → σ) (a : Action τ α) : Action σ α := fun s =>
  let o := a.run (part s)
  ⟨o.result, o.log, withPart s o.state⟩

/-- Runs an action and hands its failure, if it fails, on as another. -/
def onFailure (a : Action σ α) (wrap : Failure → Failure) : Action σ α := fun s =>
  let o := a.run s
  { o with result := o.result.mapError wrap }

/-- Runs an action, and turns a failure of it into a result. -/
def attempt (a : Action σ α) : Action σ (Except Failure α) := fun s =>
  let o := a.run s
  { o with result := .ok o.result }

end Action

end TaggedSource
