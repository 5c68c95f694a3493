import SolcDispatch.Failure

/-! Traces of compilations and the ring that keeps the latest of them. -/

namespace SolcDispatch

/-- How one compilation went. A trace without an error is a success, and an empty
error is an error all the same. -/
structure Trace where
  version : String
  protocol : String := ""
  stderr : String := ""
  exitCode : Option Int := none
  error : Option String := none
  finished : Bool := false
  deriving DecidableEq, Repr

namespace Trace

def ok (t : Trace) : Bool := t.error.isNone

def finish (t : Trace) (error : Option String) : Trace := { t with finished := true, error }

def level (t : Trace) : String := if t.ok then "info" else "warning"

def event : String := "invocation_trace"

end Trace

/-- The latest traces, oldest first, at most `capacity` of them. -/
structure TraceRing where
  capacity : Nat
  recent : List Trace := []
  deriving Repr

namespace TraceRing

/-- An empty ring; a negative capacity is refused. -/
def ofCapacity (capacity : Int) : Except Failure TraceRing :=
  if capacity < 0 then .error .negativeCapacity else .ok { capacity := capacity.toNat }

def record (ring : TraceRing) (t : Trace) : TraceRing :=
  let kept := ring.recent ++ [t]
  { ring with recent := kept.drop (kept.length - ring.capacity) }

def failed (ring : TraceRing) : Nat := ring.recent.countP fun t => !t.ok

end TraceRing

end SolcDispatch
