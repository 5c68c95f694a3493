import SolcDispatch.Host.Connection
import SolcDispatch.Host.Program
import SolcDispatch.Interpreter.Rehearsed

/-! Ways to load a scripted build into an interpreter: as a rehearsed one, whose file
lists its answers, or in a host process. -/

namespace SolcDispatch

/-- How builds are loaded, called and asked for what they said of themselves. -/
structure Loader (σ : Type) where
  load : Files → FilePath → Except Stop (Capability × σ)
  answer : Call → σ → Except Stop String × σ
  diagnostics : σ → String

namespace Loader

def interpreter {σ : Type} (loader : Loader σ) (capability : Capability) : Interpreter σ :=
  ⟨capability, loader.answer⟩

structure Rehearsal where
  replies : List RehearsedReply := []
  answered : Nat := 0
  diagnostics : String := ""

def textMember (build : Json) (name : String) : String :=
  match build.get? name with
  | some (.str text) => text
  | _ => ""

def repliesOf (build : Json) : List RehearsedReply :=
  match build.get? "replies" with
  | some (.arr replies) => replies.map RehearsedReply.ofJson
  | _ => []

def loadRehearsed (files : Files) (path : FilePath) : Except Failure (Capability × Rehearsal) :=
  match files.entry? path with
  | some (.file content _) =>
    match Json.parseBytes? content with
    | some (.ok build) =>
      if !build.isObject then .error .internal
      else match build.get? "load_error" with
        | some (.str text) => .error (.callFailed text)
        | _ => do
          let capability ← Capability.ofJson ((build.get? "entrypoints").getD (.arr []))
          return (capability,
            { replies := repliesOf build, diagnostics := textMember build "stderr" })
    | _ => .error .internal
  | _ => .error .internal

def rehearsals : Loader Rehearsal where
  load files path := (loadRehearsed files path).mapError .failed
  answer _ s := (rehearsedAnswer s.replies s.answered, { s with answered := s.answered + 1 })
  diagnostics s := s.diagnostics

/-- Programs that host builds: a shell that runs the build itself, or an interpreter with
the host script. Nothing else is there. -/
inductive HostProgram
  | shell
  | scriptHost
  | absent (command : String)
  deriving DecidableEq, Repr

def HostProgram.ofCommand (command : String) : HostProgram :=
  if command = "node" then .scriptHost else .absent command

def contentOf (files : Files) (path : FilePath) : Text.Bytes :=
  match files.entry? path with
  | some (.file content _) => content
  | _ => []

/-- The process of a host that loads the build in a file. -/
def start (host : HostProgram) (files : Files) (path : FilePath) : Except Failure Process :=
  match host with
  | .shell => .ok { program := Shell.program (contentOf files path) path.toText [] }
  | .scriptHost => .ok { program := Host.program (Text.decodeUtf8 (contentOf files path)) }
  | .absent command =>
    .error (.interpreterStartFailed command (StartFault.missing.message command))

def connect (host : HostProgram) (files : Files) (path : FilePath) :
    Except Stop Capability × Option Connection :=
  match start host files path with
  | .error failure => (.error (.failed failure), none)
  | .ok process =>
    let (opened, c) := Connection.open path.fileName process
    (opened, some c)

def processes (host : HostProgram) : Loader Connection where
  load files path :=
    match connect host files path with
    | (.ok capability, some c) => .ok (capability, c)
    | (.error stop, _) => .error stop
    | (.ok _, none) => .error .hung
  answer := Connection.call
  diagnostics c := c.process.stderr

end Loader

end SolcDispatch
