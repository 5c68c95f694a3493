import SolcDispatch.Host.Wire
import SolcDispatch.Program.Start

/-! A build in a host process: it is opened, called and closed. -/

namespace SolcDispatch

/-- A host process, the number of the last call, and whether its end has been seen. -/
structure Connection where
  process : Process
  lastId : Nat := 0
  lost : Bool := false

namespace Connection

/-- Read a message with texts of the given kind. -/
def receive (c : Connection) (τ : Type := String) [DecidableEq τ] [TextLike τ] :
    Except Stop (Json τ) × Connection :=
  match c.process.readLine with
  | (.line bytes, process) => ((Wire.ofLine bytes τ).mapError .failed, { c with process })
  | (.overrun whole, process) => (.error (.failed (.lineTooLong whole)), { c with process })
  | (.ended, process) => (.error (.failed (Wire.endOf process)), { c with process, lost := true })
  | (.silence, process) => (.error .hung, { c with process })

def terminate (c : Connection) (force : Bool) (interrupted : Bool := false) : Connection :=
  { c with process := c.process.terminate force interrupted }

/-- Wait for the host to announce its build. A host that does not is stopped, which may be
interrupted; one that announces entrypoints of a wrong kind is not. -/
def «open» (artifact : String) (process : Process) (interrupted : Bool := false) :
    Except Stop Capability × Connection :=
  let c : Connection := { process }
  match c.receive with
  | (.error stop, c) => (.error stop, c.terminate true interrupted)
  | (.ok hello, c) =>
    if Wire.isReady hello then ((Wire.capabilityOf hello).mapError .failed, c)
    else (.error (.failed (Wire.loadFault artifact hello)), c.terminate true interrupted)

/-- The reason given for a host that is known to have ended. -/
def lostReason : String := "Connection lost"

def call {τ : Type} [DecidableEq τ] [TextLike τ] (request : Call τ) (c : Connection) :
    Except Stop τ × Connection :=
  let id := c.lastId + 1
  let c := { c with lastId := id, process := c.process.send (Wire.requestLine id request) }
  if c.lost then (.error (.failed (.inputClosed lostReason)), c)
  else match c.receive τ with
    | (.error stop, c) => (.error stop, c)
    | (.ok reply, c) => ((Wire.outputOf id reply).mapError .failed, c)

def interpreter (capability : Capability) : Interpreter Connection := ⟨capability, call⟩

end Connection

end SolcDispatch
