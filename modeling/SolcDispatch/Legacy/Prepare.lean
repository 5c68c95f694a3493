import SolcDispatch.Interpreter.Call
import SolcDispatch.Legacy.Output
import SolcDispatch.StandardInput

/-! What a legacy build needs of a document, checked before anything is compiled: the
contents of its sources, a convention that can take them, and well-formed seeds. -/

namespace SolcDispatch.Legacy

/-- Sources by path; legacy builds resolve no imports, so each needs its content. -/
def contents : List (String × SourceEntry) → Except Failure (List (String × String))
  | [] => .ok []
  | (path, entry) :: rest =>
    match entry.content with
    | none => .error (.missingContent path)
    | some text => (contents rest).map fun sources => (path, text) :: sources

/-- Whether a build of the given convention can take the sources. -/
def checkSources (capability : Capability) (sources : List (String × String)) :
    Except Failure Unit :=
  match capability with
  | .callback | .multiSource => .ok ()
  | .singleSource =>
    if 1 < sources.length then .error .severalSources
    else if sources.isEmpty then .error .noSources
    else .ok ()
  | .unsupported => .error .noInterface
  | .modern => .error .modernBuild

/-- The documents among seeds from the given index on, or the first that is none. -/
def readSeeds (index : Nat) : List Json → Except Failure (List StandardInput)
  | [] => .ok []
  | raw :: rest =>
    match StandardInput.parse raw with
    | .error violations => .error (.invalidSeed index violations)
    | .ok seed => (readSeeds (index + 1) rest).map fun seeds => seed.withoutModelChecker :: seeds

/-- What a legacy build gets: the one source as it is, or all sources by path. -/
def sourceText (capability : Capability) (sources : List (String × String)) : String :=
  match capability, sources with
  | .singleSource, (_, text) :: _ => text
  | _, _ => Json.text (.obj [("sources", .obj (sources.map fun s => (s.1, .str s.2)))])

/-- A document that a legacy build can take: its call, and the seeds to compile first. -/
structure Prepared where
  call : Call
  seeds : List StandardInput

def prepare (capability : Capability) (document : StandardInput) : Except Failure Prepared := do
  let sources ← contents document.sources
  checkSources capability sources
  let seeds ← readSeeds 0 document.seeds
  return {
    call := ⟨capability.entrypoint?.getD "", sourceText capability sources,
      document.optimizerEnabled⟩
    seeds }

end SolcDispatch.Legacy
