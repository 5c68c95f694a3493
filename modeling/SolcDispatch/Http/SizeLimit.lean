import SolcDispatch.Http.Message
import SolcDispatch.Json.Parser

/-! The limit on the length of a request's body, as far as the request states it. -/

namespace SolcDispatch.Http

/-- The three raised digits among the characters of a header. -/
def isRaisedDigit (c : Char) : Bool := c == '\u00B9' || c == '\u00B2' || c == '\u00B3'

/-- The number that a length field states. A text that is not all digits states none;
raised digits and too many digits are faults. -/
def lengthOf (field : String) : Except Failure (Option Nat) :=
  let cs := field.toList
  if cs.isEmpty || !cs.all (fun c => c.isDigit || isRaisedDigit c) then .ok none
  else if cs.any isRaisedDigit then .error .internal
  else if Json.maxDigits < cs.length then .error (.longInteger cs.length)
  else .ok (some (Json.natOfDigits cs))

def statedLength (r : Request) : Except Failure (Option Nat) :=
  match r.header? "content-length" with
  | some field => lengthOf field
  | none => .ok none

def tooLarge : Response := refusalResponse 413 "request body too large"

/-- Refuse a request that states too great a length; `none` lets it pass. -/
def refuseLength (limit : Int) (r : Request) : Option Served :=
  match statedLength r with
  | .error failure => some (.escaped failure)
  | .ok (some length) => if limit < length then some (.answered tooLarge) else none
  | .ok none => none

end SolcDispatch.Http
