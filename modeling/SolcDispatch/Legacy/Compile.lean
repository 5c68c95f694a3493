import SolcDispatch.Legacy.SeedSize

/-! Compiling a document with a legacy build: its seeds first, one after another, and
then the sources alone. -/

namespace SolcDispatch.Legacy

/-- The result of a document in the text that a legacy build printed. -/
def readResult (optimize : Bool) (seeds : List Json) (printed : String) : Except Failure Json := do
  let output ← Failure.ofParse .legacyOutputNotJson (Json.parse printed)
  if !output.isObject then .error .legacyOutputNotObject
  (normalize output optimize seeds).map Output.toJson

variable {σ : Type}

/-- Make the call of a prepared document and read what comes back. -/
def finish (interpreter : Interpreter σ) (call : Call) (provenance : List Json) : Run σ Json := do
  let printed ← Run.call interpreter call
  Run.lift (readResult call.optimize provenance printed)

/-- Compile a document, leaving the compilation of its seeds, which are smaller than the
document, to `compileSeed`. -/
def compileAfter (interpreter : Interpreter σ) (document : StandardInput)
    (compileSeed : (seed : StandardInput) → sizeOf seed.settings < sizeOf document.settings →
      Run σ Unit) : Run σ Json :=
  match hprepare : prepare interpreter.capability document with
  | .error failure => Run.fail failure
  | .ok prepared => do
    let provenance ← prepared.seeds.attach.mapM fun ⟨seed, hseed⟩ => do
      compileSeed seed (sizeOf_seed_lt hprepare hseed)
      Run.lift seed.provenance
    finish interpreter prepared.call provenance

/-- Compile a document with any way to compile a seed. -/
def compile (interpreter : Interpreter σ) (compileSeed : StandardInput → Run σ Unit)
    (document : StandardInput) : Run σ Json :=
  compileAfter interpreter document fun seed _ => compileSeed seed

/-- The interpreter with a record kept beside its state. -/
def recordSeeds {ρ : Type} (interpreter : Interpreter σ) : Interpreter (σ × ρ) where
  capability := interpreter.capability
  answer c state :=
    let (answer, inner) := interpreter.answer c state.1
    (answer, (inner, state.2))

end SolcDispatch.Legacy
