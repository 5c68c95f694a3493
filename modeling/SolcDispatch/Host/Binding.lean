import SolcDispatch.Host.Build

/-! The entrypoints of a build: which of its functions serve them, and with what
arguments. -/

namespace SolcDispatch.Host

open Script (Value)

/-- Sources are never read through a callback. -/
def noCallback : Value := .number (.ofInt 0)

def zero : Value := .number (.ofInt 0)

def flag (optimize : Value) : Value := .number (.ofInt (if optimize.isTrue then 1 else 0))

/-- A function of a build that serves an entrypoint. -/
structure Binding where
  entrypoint : String
  function : String
  types : List String
  inScript : String
  arguments : (input optimize : Value) → List Value

/-- All functions that may serve entrypoints; of two for the same one, the first is
taken. -/
def bindings : List Binding :=
  [⟨"standard", "solidity_compile", ["string", "number", "number"], "solidityCompile",
      fun input _ => [input, noCallback, zero]⟩,
    ⟨"standard", "compileStandard", ["string", "number"], "compileStandard",
      fun input _ => [input, noCallback]⟩,
    ⟨"callback", "compileJSONCallback", ["string", "number", "number"], "compileJSONCallback",
      fun input optimize => [input, flag optimize, noCallback]⟩,
    ⟨"multi", "compileJSONMulti", ["string", "number"], "compileJSONMulti",
      fun input optimize => [input, flag optimize]⟩,
    ⟨"single", "compileJSON", ["string", "number"], "compileJSON",
      fun input optimize => [input, flag optimize]⟩]

/-- Wrap the function of a binding, if the build has it. -/
def bind (exports : Value) (b : Binding) : Script.Run (Option Value) := do
  match Script.hasMember? exports ("_" ++ b.function) with
  | none => throw (Script.typeError "Cannot use 'in' operator")
  | some false => return none
  | some true =>
    let wrap := Script.memberOf exports "cwrap"
    if !wrap.isFunction then throw (Script.typeError "soljson.cwrap is not a function")
    let types := Value.array (b.types.map fun (type : String) => .text type)
    match ← Script.apply Script.maxDepth wrap exports [.text b.function, .text "string", types] with
    | .null => return none
    | function => return some function

def bindAll (exports : Value) : List Binding → Script.Run (List (Binding × Value))
  | [] => return []
  | b :: rest => do
    let bound ← bind exports b
    let more ← bindAll exports rest
    return (bound.map fun function => (b, function)).toList ++ more

def callBound (b : Binding) (function input optimize : Value) : Script.Run Value :=
  if function.isFunction then Script.applyFunction function (b.arguments input optimize)
  else throw (Script.typeError (b.inScript ++ " is not a function"))

def stderrOf (s : Script.State) : Text.Bytes := Text.utf8 (String.ofList s.printed)

def buildOf (bound : List (Binding × Value)) : Build Script.State where
  entrypoints := (bound.map fun b => (b.1.entrypoint : Wide)).eraseDups
  call name input optimize := fun s =>
    match bound.find? fun b => b.1.entrypoint == name with
    | some (b, function) => (callBound b function input optimize).run s
    | none => (.ok .undefined, s)
  complaint thrown := fun s => (Script.told "message" thrown).run s
  diagnostics := stderrOf

end SolcDispatch.Host
