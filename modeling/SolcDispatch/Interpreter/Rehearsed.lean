import SolcDispatch.Interpreter.Call
import SolcDispatch.Json.Parser

/-! Interpreters whose answers are fixed beforehand: each call takes the next answer,
and the last one repeats. -/

namespace SolcDispatch

inductive RehearsedReply
  | output (text : String)
  | error (text : String)
  | crash (diagnostics : String)
  | silence
  deriving DecidableEq, Repr

def RehearsedReply.answer : RehearsedReply → Except Stop String
  | .output text => .ok text
  | .error text => .error (.failed (.callFailed text))
  | .crash diagnostics => .error (.failed (.crashed diagnostics))
  | .silence => .error .hung

def RehearsedReply.ofJson (reply : Json) : RehearsedReply :=
  match reply.get? "output", reply.get? "error", reply.get? "crash", reply.get? "hang" with
  | some (.str text), _, _, _ => .output text
  | _, some (.str text), _, _ => .error text
  | _, _, some (.str text), _ => .crash text
  | _, _, _, some (.bool true) => .silence
  | _, _, _, _ => .output "\x7b\x7d"

/-- The answer to the call after `answered` calls; no answers at all mean an empty
object each time. -/
def rehearsedAnswer (replies : List RehearsedReply) (answered : Nat) : Except Stop String :=
  match replies[min answered (replies.length - 1)]? with
  | some reply => reply.answer
  | none => .ok "\x7b\x7d"

/-- An interpreter with fixed answers; its state is the number of calls answered. -/
def rehearsed (capability : Capability) (replies : List RehearsedReply) : Interpreter Nat where
  capability
  answer _ answered := (rehearsedAnswer replies answered, answered + 1)

end SolcDispatch
