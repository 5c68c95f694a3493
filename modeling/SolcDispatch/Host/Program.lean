import SolcDispatch.Host.Binding
import SolcDispatch.Program.Basic

/-! The host of a scripted build as a program: it loads the build, says so, and answers
every line of its input. -/

namespace SolcDispatch.Host

/-- Cut a text into lines at line feeds, carriage returns or both together, and at the
line and paragraph separators; the last part has no end yet. -/
def splitLines (lines : List (List Char)) (part : List Char) : List Char → List (List Char) × List Char
  | [] => (lines.reverse, part.reverse)
  | '\r' :: '\n' :: rest => splitLines (part.reverse :: lines) [] rest
  | c :: rest =>
    if c == '\n' || c == '\r' || c == '\u2028' || c == '\u2029' then
      splitLines (part.reverse :: lines) [] rest
    else splitLines lines (c :: part) rest

/-- The lines of an input; what is left at its end is a line too. -/
def linesOf (input : Text.Bytes) (ended : Bool) : List String :=
  let (lines, part) := splitLines [] [] (Text.decodeUtf8 input).toList
  (if ended && !part.isEmpty then lines ++ [part] else lines).map String.ofList

def sent {τ : Type} [TextLike τ] (m : Json τ) : Text.Bytes := Text.utf8 (Json.print Json.script m) ++ [0x0A]

/-- What is said of a thrown value that nothing catches. -/
def uncaught (thrown : Script.Value) : Text.Bytes :=
  Text.utf8 s!"Uncaught {TextLike.toString thrown.toText}\n"

/-- Serve a loaded build: say so, and answer every line of an input. -/
def serve {σ : Type} (build : Build σ) (input : Text.Bytes) (ended : Bool) (s : σ) : Execution :=
  let result := answers build (linesOf input ended) s
  let stdout := (hello build.entrypoints :: result.messages).flatMap sent
  let stderr := build.diagnostics result.state
  match result.thrown with
  | none => { stdout, stderr, standing := if ended then .exited 0 else .waiting }
  | some thrown => { stdout, stderr := stderr ++ uncaught thrown, standing := .exited 1 }

/-- Load a build and bind its functions. An error while loading is announced, one while
binding is not. -/
def program (source : String) : Program := fun input ended =>
  let crash := fun thrown s => ({ stderr := stderrOf s ++ uncaught thrown, standing := .exited 1 } : Execution)
  match (Script.load source).run {} with
  | (.error thrown, s) =>
    match (Script.told "stack" thrown).run s with
    | (.ok text, s) =>
      { stdout := sent (loadFailure text), stderr := stderrOf s, standing := .exited 1 }
    | (.error again, s) => crash again s
  | (.ok exports, s) =>
    match (bindAll exports bindings).run s with
    | (.error thrown, s) => crash thrown s
    | (.ok bound, s) => serve (buildOf bound) input ended s

end SolcDispatch.Host
