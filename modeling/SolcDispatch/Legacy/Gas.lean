import SolcDispatch.Failure
import SolcDispatch.Json.Printer

/-! Gas estimates of legacy compilers, as texts: a missing bound is infinite and a
number keeps its exact value. -/

namespace SolcDispatch.Legacy

/-- The text of a number; a whole number has no fractional part. -/
def gasNumber (x : Binary64) : String :=
  match x.toInt? with
  | some n => String.ofList (Json.printInt n)
  | none => x.toText

mutual

/-- The estimate with texts for numbers. A whole number too great for a
floating-point number fails. -/
def gasText : Json → Except Failure Json
  | .null => .ok (.str "infinite")
  | .bool b => .ok (.str (if b then "1" else "0"))
  | .int n =>
    if (Binary64.ofInt n).isFinite then .ok (.str (String.ofList (Json.printInt n)))
    else .error .internal
  | .float x => .ok (.str (gasNumber x))
  | .obj members => (gasMembers members).map .obj
  | value => .ok value

def gasMembers : List (String × Json) → Except Failure (List (String × Json))
  | [] => .ok []
  | (name, value) :: rest => do
    let text ← gasText value
    let texts ← gasMembers rest
    return (name, text) :: texts

end

/-- The item of a list or the character of a text at an index. -/
def itemAt (value : Json) (index : Nat) : Except Failure Json :=
  match value with
  | .arr items => match items[index]? with
    | some item => .ok item
    | none => .error .internal
  | .str s => match s.toList[index]? with
    | some c => .ok (.str (String.singleton c))
    | none => .error .internal
  | _ => .error .internal

/-- The part for creating a contract: execution comes first, the deposit second. -/
def creationGas (creation : Json) : Except Failure Json := do
  let deposit ← itemAt creation 1 >>= gasText
  let execution ← itemAt creation 0 >>= gasText
  return .obj [("codeDepositCost", deposit), ("executionCost", execution)]

/-- A part of the estimates, if it is there and not empty. -/
def gasPart (gas : Json) (name : String) (translate : Json → Except Failure Json) :
    Except Failure Json.Members :=
  let part := gas.getD name
  if part.truthy then (translate part).map fun text => [(name, text)] else .ok []

def contractGas (gas : Json) : Except Failure Json :=
  if !gas.truthy then .ok (.obj [])
  else if !gas.isObject then .error .internal
  else do
    let creation ← gasPart gas "creation" creationGas
    let inner ← gasPart gas "internal" gasText
    let outer ← gasPart gas "external" gasText
    return .obj (creation ++ inner ++ outer)

end SolcDispatch.Legacy
