import SolcDispatch.Program.Basic

/-! Running programs: what one has been sent, how much of its output has been read,
and how it is stopped. -/

namespace SolcDispatch

/-- A running program. Its output arrives piece by piece: `surplus` tells, by the place at which
a line begins, how many bytes too many of it had arrived when it was found too long. -/
structure Process where
  program : Program
  input : Text.Bytes := []
  inputClosed : Bool := false
  bytesRead : Nat := 0
  killed : Bool := false
  last : Option Execution := none
  surplus : Nat → Nat := fun _ => 0

namespace Process

/-- All that the program has done with the input it was sent. A process that is known
to have ended does no more. -/
def execution (p : Process) : Execution := p.last.getD (p.program p.input p.inputClosed)

def killedStatus : Int := -9

/-- The status of a process that has come to its end. -/
def status? (p : Process) : Option Int :=
  if p.killed then some killedStatus
  else match p.execution.standing with
    | .exited status => some status
    | _ => none

def hasExited (p : Process) : Bool := p.status?.isSome

def stderr (p : Process) : String := Text.decodeUtf8 p.execution.stderr

def send (p : Process) (bytes : Text.Bytes) : Process :=
  if p.inputClosed || p.killed then p else { p with input := p.input ++ bytes }

def closeInput (p : Process) : Process := { p with inputClosed := true }

def kill (p : Process) : Process := if p.hasExited then p else { p with killed := true }

/-- Tell a process to stop: its input is closed, and it is killed if that is asked for. -/
def dismiss (p : Process) (force : Bool) : Process :=
  if p.hasExited then { p with inputClosed := true, last := some p.execution }
  else if force then p.kill.closeInput
  else p.closeInput

/-- Stop a process: it is told to, and killed if it does not end within its time of grace. Who is
interrupted in that time kills it no more. -/
def terminate (p : Process) (force : Bool) (interrupted : Bool := false) : Process :=
  let p := p.dismiss force
  if interrupted then p else p.kill

def unread (p : Process) : Text.Bytes := p.execution.stdout.drop p.bytesRead

/-- The most bytes that a line may have before its line feed. -/
def maxLine : Nat := 256 * 1024 * 1024

/-- What is read: a line, one that is too long, of which the line feed had arrived or not, or
nothing any more or not yet. -/
inductive Line
  | line (bytes : Text.Bytes)
  | overrun (whole : Bool)
  | ended
  | silence
  deriving DecidableEq, Repr

/-- Read a line with its line feed; the last one of a process that has ended may be
without it. Of a line that is too long, what had arrived is left out. -/
def readLine (p : Process) : Line × Process :=
  let rest := p.unread
  let upTo := rest.takeWhile (· != 0x0A)
  if maxLine < upTo.length then
    let arrived := min (maxLine + 1 + p.surplus p.bytesRead) (rest.take (upTo.length + 1)).length
    (.overrun (upTo.length < arrived), { p with bytesRead := p.bytesRead + arrived })
  else if upTo.length < rest.length then
    (.line (rest.take (upTo.length + 1)), { p with bytesRead := p.bytesRead + (upTo.length + 1) })
  else if p.hasExited then
    if rest.isEmpty then (.ended, p)
    else (.line rest, { p with bytesRead := p.bytesRead + rest.length })
  else (.silence, p)

end Process

end SolcDispatch
