import SolcDispatch.Failure
import SolcDispatch.Json.Parser
import SolcDispatch.Text.Blank

/-! What a compiler printed: a JSON object, or the reason why it is none. The exit
status does not count. -/

namespace SolcDispatch

/-- The object on standard output. Empty output with diagnostics is a crash. -/
def readOutput (stdout stderr : String) : Except Failure Json :=
  if Text.isAllBlank stdout then
    if Text.isAllBlank stderr then .error .noOutput else .error (.crashed stderr)
  else do
    let result ← Failure.ofParse .outputNotJson (Json.parse stdout)
    if result.isObject then return result else .error .outputNotObject

end SolcDispatch
