import SolcDispatch.Interpreter.Call
import SolcDispatch.Output
import SolcDispatch.Program.Start

/-! Runs of native compilers: the whole input at once, and all output read to its
end. -/

namespace SolcDispatch.Native

/-- The option under which a compiler takes standard documents. -/
def standardOption : String := "--standard-json"

structure Finished where
  stdout : String
  stderr : String
  exitCode : Int
  deriving DecidableEq, Repr

/-- Give a program all its input and wait for its end, which may never come. -/
def finish (program : Program) (payload : Text.Bytes) : Except Stop Finished :=
  let done := program payload true
  match done.standing with
  | .exited status => .ok ⟨Text.decodeUtf8 done.stdout, Text.decodeUtf8 done.stderr, status⟩
  | _ => .error .hung

/-- The program in a file, or why it cannot be started. -/
def start (files : Files) (path : FilePath) : Except Failure Program :=
  (Program.ofFile files path [standardOption]).mapError fun fault =>
    .startFailed path.fileName (fault.message path.toText)

def run (files : Files) (path : FilePath) (payload : Text.Bytes) : Except Stop Finished :=
  match start files path with
  | .error failure => .error (.failed failure)
  | .ok program => finish program payload

/-- The files that a run leaves behind, whether it ends or not. -/
def written (files : Files) (path : FilePath) (payload : Text.Bytes) :
    List (String × Text.Bytes) :=
  match start files path with
  | .error _ => []
  | .ok program => (program payload true).files

def Finished.output (done : Finished) : Except Failure Json := readOutput done.stdout done.stderr

end SolcDispatch.Native
