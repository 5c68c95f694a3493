import SolcDispatch.Interpreter.Capability

/-! Calls of an interpreter in which a build is loaded, and runs that make them. A
run keeps the calls it has made. -/

namespace SolcDispatch

structure Call (τ : Type := String) where
  entrypoint : τ
  input : τ
  optimize : Bool := false
  deriving DecidableEq, Repr

/-- Why a run does not return: it fails, or it waits for an answer that never comes. -/
inductive Stop
  | failed (failure : Failure)
  | hung
  deriving DecidableEq, Repr

/-- A loaded build: its convention, and how it answers a call in each state. -/
structure Interpreter (σ : Type) where
  capability : Capability
  answer : Call → σ → Except Stop String × σ

/-- An interpreter's state and the calls made so far, in order. -/
structure Progress (σ : Type) where
  state : σ
  calls : List Call := []

abbrev Run (σ : Type) := ExceptT Stop (StateM (Progress σ))

namespace Run

variable {σ : Type}

def call (interpreter : Interpreter σ) (c : Call) : Run σ String := fun progress =>
  let (answer, state) := interpreter.answer c progress.state
  (answer, { state, calls := progress.calls ++ [c] })

def fail {α : Type} (failure : Failure) : Run σ α := throw (.failed failure)

def lift {α : Type} : Except Failure α → Run σ α
  | .ok value => pure value
  | .error failure => fail failure

end Run

end SolcDispatch
