import SolcDispatch.Text.Utf8

/-! Programs as the functions they are from the outside: what one has printed,
written and come to once it has got a part of its input. -/

namespace SolcDispatch

/-- How a program stands. A negative status is the signal that ended it. -/
inductive Standing
  | exited (status : Int)
  | waiting
  | endless
  deriving DecidableEq, Repr

structure Execution where
  stdout : Text.Bytes := []
  stderr : Text.Bytes := []
  files : List (String × Text.Bytes) := []
  standing : Standing

/-- What a program has done after the given input, and whether the input ends there. -/
abbrev Program := Text.Bytes → (ended : Bool) → Execution

end SolcDispatch
