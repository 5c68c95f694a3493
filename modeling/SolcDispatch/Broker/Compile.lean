import SolcDispatch.Broker.Invocation

/-! Compiling a document with a version: the version is looked up first, then the
document is checked, and only then is anything downloaded or run. -/

namespace SolcDispatch

structure Admitted where
  version : String
  kind : BuildKind
  document : StandardInput

inductive Ending
  | finished (result : Except Failure Json)
  | cancelled

/-- A request from its start to its end: how it ends, the calls made, the paths requested
from the depot, and the broker after it. -/
structure Compilation where
  ending : Ending
  calls : List Call := []
  paths : List String := []
  broker : Broker

namespace Broker

variable {σ : Type}

def admission (b : Broker) (version : String) (input : Json) : Except Failure Admitted :=
  if !b.known.exists? version then .error .unknownVersion
  else match StandardInput.parse input with
    | .error violations => .error (.invalidInput violations)
    | .ok document => do
      return ⟨version, ← b.known.classify version, document.withoutModelChecker⟩

/-- How a run that stopped ends: one that hangs is given up after the time limit, or when
its caller goes away before. -/
def endingOf (b : Broker) (abandoned : Bool) : Except Stop Json → Ending
  | .ok result => .finished (.ok result)
  | .error (.failed failure) => .finished (.error failure)
  | .error .hung => if abandoned then .cancelled else .finished (.error (.timedOut b.timeout))

def Ending.error : Ending → Option String
  | .finished (.ok _) => none
  | .finished (.error failure) => some failure.describe
  | .cancelled => some "cancelled"

def keepFiles (b : Broker) (written : List (String × Text.Bytes)) : Broker :=
  { b with cache := { b.cache with
      files := written.foldl (fun files (path, content) =>
        files.place (FilePath.ofString path) content 0o644) b.cache.files } }

def recordTrace (b : Broker) (trace : Trace) (ending : Ending) : Broker :=
  { b with traces := b.traces.record (trace.finish (Ending.error ending)) }

/-- Get the build of an admitted request and run it. -/
def invoke (around : Surroundings σ) (b : Broker) (abandoned : Bool) (a : Admitted) : Compilation :=
  let trace : Trace := { version := a.version, protocol := a.kind.name }
  let (acquired, paths, b) := b.acquire around a.version
  match acquired with
  | none => ⟨.cancelled, [], paths, b.recordTrace trace .cancelled⟩
  | some (.error failure) =>
    let ending := Ending.finished (.error failure)
    ⟨ending, [], paths, b.recordTrace trace ending⟩
  | some (.ok path) =>
    let run := Invocation.run around.loader b.cache.files a.kind path a.document trace
    let ending := b.endingOf abandoned run.outcome
    ⟨ending, run.calls, paths, (b.keepFiles run.written).recordTrace run.trace ending⟩

/-- Compile a document with a version. An abandoned request is one whose caller goes away
as soon as it hangs. -/
def compile (around : Surroundings σ) (b : Broker) (abandoned : Bool) (version : String)
    (input : Json) : Compilation :=
  match b.admission version input with
  | .error failure => { ending := .finished (.error failure), broker := b }
  | .ok a => b.invoke around abandoned a

end Broker

end SolcDispatch
