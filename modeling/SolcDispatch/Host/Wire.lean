import SolcDispatch.Host.Process
import SolcDispatch.Interpreter.Call
import SolcDispatch.Json.Parser
import SolcDispatch.Json.Printer

/-! Messages between the service and the host of an interpreter: JSON objects, one a
line. -/

namespace SolcDispatch.Wire

variable {τ : Type} [TextLike τ]

def request (id : Nat) (call : Call τ) : Json τ :=
  let name := TextLike.ofString
  .obj [(name "id", .ofNat id), (name "cmd", .str call.entrypoint), (name "input", .str call.input),
    (name "optimize", .bool call.optimize)]

def requestLine (id : Nat) (call : Call τ) : Text.Bytes :=
  Text.utf8 (request id call).text ++ [0x0A]

/-- The message in a line, with texts of the given kind. -/
def ofLine (line : Text.Bytes) (τ : Type := String) [DecidableEq τ] [TextLike τ] :
    Except Failure (Json τ) :=
  match Json.parseBytes? line τ with
  | none => .error .internal
  | some parsed => do
    let message ← Failure.ofParse .messageNotJson parsed
    if message.isObject then return message else .error .messageNotObject

def endOf (p : Process) : Failure :=
  if Text.isAllBlank p.stderr then .interpreterExited (p.status?.getD 0) else .crashed p.stderr

/-- The convention of a build that its host announces; no entrypoints may be written
as any value that counts as false. -/
def capabilityOf (hello : Json) : Except Failure Capability :=
  let entrypoints := hello.getD "entrypoints"
  Capability.ofJson (if entrypoints.truthy then entrypoints else .arr [])

def isReady (hello : Json) : Bool := (hello.getD "ready").truthy

/-- Why a build is not loaded, by its host's words. -/
def loadFault (artifact : String) (hello : Json) : Failure :=
  .loadFailed artifact (match hello.get? "error" with
    | some error => error.plain
    | none => "unknown error")

/-- The output in a reply to the call with the given number. -/
def outputOf [DecidableEq τ] (id : Nat) (reply : Json τ) : Except Failure τ :=
  let name := TextLike.ofString
  if !(reply.getD (name "id")).isNumber id then
    .error (.wrongReply (reply.getD (name "id")).literal id)
  else if !(reply.getD (name "ok")).truthy then
    let error := reply.getD (name "error")
    .error (.callFailed (if error.truthy then error.plain else "interpreter call failed"))
  else match reply.get? (name "output") with
    | some (.str output) => .ok output
    | _ => .error .replyWithoutOutput

end SolcDispatch.Wire
