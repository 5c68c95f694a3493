import SolcDispatch.Legacy.Compile
import SolcDispatch.Output

/-! Compiling a document with a scripted build of any convention. -/

namespace SolcDispatch.Scripted

open Legacy

variable {σ : Type}

/-- Compile a document with a build that takes standard documents. -/
def compileModern {τ : Type} [TextLike τ] (interpreter : Interpreter σ)
    (document : StandardInput τ) : Run σ Json := do
  let input ← Run.lift document.payloadText
  let printed ← Run.call interpreter ⟨Capability.modern.entrypoint?.getD "", input, false⟩
  Run.lift (readOutput printed "")

/-- Compile a document with a scripted build of any convention. With a legacy build, seeds are
compiled as the document is. -/
def compile (interpreter : Interpreter σ) (document : StandardInput) : Run σ Json :=
  if interpreter.capability = .modern then compileModern interpreter document
  else compileAfter interpreter document fun seed _ => discard (compile interpreter seed)
termination_by sizeOf document.settings

end SolcDispatch.Scripted
