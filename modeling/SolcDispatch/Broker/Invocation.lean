import SolcDispatch.Broker.Basic

/-! Running the build of a version on a document, by the protocol of its kind. -/

namespace SolcDispatch

/-- A run of a build: what it comes to, its trace, the calls made and the files left
behind. -/
structure Invocation where
  outcome : Except Stop Json
  trace : Trace
  calls : List Call := []
  written : List (String × Text.Bytes) := []

namespace Invocation

variable {σ : Type}

def ofNative {τ : Type} [TextLike τ] (files : Files) (path : FilePath)
    (document : StandardInput τ) (trace : Trace) : Invocation :=
  match document.payloadText with
  | .error failure => ⟨.error (.failed failure), trace, [], []⟩
  | .ok text =>
    let payload := Text.utf8 text
    let written := Native.written files path payload
    match Native.run files path payload with
    | .error stop => ⟨.error stop, trace, [], written⟩
    | .ok done =>
      ⟨done.output.mapError .failed,
        { trace with stderr := done.stderr, exitCode := some done.exitCode }, [], written⟩

/-- The protocol under which the runs of a loaded build are traced. -/
def protocolOf (capability : Capability) : String :=
  if capability.isLegacy then "scripted-legacy" else "scripted-modern"

def ofScripted (loader : Loader σ) (files : Files) (path : FilePath) (document : StandardInput)
    (trace : Trace) : Invocation :=
  match loader.load files path with
  | .error stop => ⟨.error stop, trace, [], []⟩
  | .ok (capability, s) =>
    let (outcome, progress) := (Scripted.compile (loader.interpreter capability) document).run ⟨s, []⟩
    ⟨outcome,
      { trace with protocol := protocolOf capability, stderr := loader.diagnostics progress.state },
      progress.calls, []⟩

def run (loader : Loader σ) (files : Files) (kind : BuildKind) (path : FilePath)
    (document : StandardInput) (trace : Trace) : Invocation :=
  match kind with
  | .native => ofNative files path document trace
  | .scripted => ofScripted loader files path document trace

end Invocation

end SolcDispatch
