import SolcDispatch.Script.Run
import SolcDispatch.Text.Utf8

/-! A loaded build and its host's answers: one message for each line that the host is
sent, up to a line that it breaks down over. -/

namespace SolcDispatch.Host

open Script (Value)

/-- A loaded build: the entrypoints that it announces, what a call of one returns or throws
in each state, and what is told of a value that was thrown, which may make the build throw
again. -/
structure Build (σ : Type) where
  entrypoints : List Wide
  call : Wide → (input optimize : Value) → σ → Except Value Value × σ
  complaint : (thrown : Value) → σ → Except Value Wide × σ
  diagnostics : σ → Text.Bytes

/-- A message without the members that are undefined. -/
def message (members : List (Wide × Value)) : Json Wide :=
  .obj (members.filterMap fun (name, value) => value.toJson?.map fun json => (name, json))

/-- The first message of a host that has loaded a build. -/
def hello (entrypoints : List Wide) : Json Wide :=
  message [("ready", .bool true), ("entrypoints", .array (entrypoints.map .text))]

/-- The first message of a host that has not loaded a build. -/
def loadFailure (error : Wide) : Json Wide :=
  message [("ready", .bool false), ("error", .text error)]

/-- The member of a request; requests other than objects have none. -/
def memberOf (request : Value) (name : Wide) : Value :=
  match request with
  | .object members => (Assoc.get? members name).getD .undefined
  | _ => .undefined

/-- What is told of the error that is thrown by what every object can be asked besides its own
members. -/
def inheritedError? (name : Wide) (input : Value) : Option Wide :=
  if name = "toLocaleString" then
    some "Object.prototype.toLocaleString called on null or undefined"
  else if name = "__proto__" then some "entrypoint is not a function"
  else if (name = "hasOwnProperty" || name = "propertyIsEnumerable") && input.plainText?.isNone then
    some "Cannot convert object to primitive value"
  else if ["isPrototypeOf", "hasOwnProperty", "propertyIsEnumerable", "valueOf", "__defineGetter__",
      "__defineSetter__", "__lookupGetter__", "__lookupSetter__"].any (name = ↑·) then
    some "Cannot convert undefined or null to object"
  else none

/-- What every object can be asked besides its own members: what is returned, or what is
told of the error that is thrown. -/
def inherited? (name : Wide) (input : Value) : Option (Except Wide Value) :=
  if name = "constructor" then some (.ok (if Script.isNothing input then .object [] else input))
  else if name = "toString" then some (.ok (.text "[object Undefined]"))
  else if name = "isPrototypeOf" && Script.isPrimitive input then some (.ok (.bool false))
  else (inheritedError? name input).map .error

def success (id output : Value) : Json Wide :=
  message [("id", id), ("ok", .bool true), ("output", output)]

def refusal (id : Value) (error : Wide) : Json Wide :=
  message [("id", id), ("ok", .bool false), ("error", .text error)]

/-- The reply to a command that is no entrypoint. -/
def unannounced (id : Value) (command : Wide) (input : Value) : Json Wide :=
  match inherited? command input with
  | some (.ok output) => success id output
  | some (.error text) => refusal id text
  | none => refusal id ("entrypoint not available: " ++ command)

variable {σ : Type}

/-- The reply to a request that has been carried out. -/
def outcome (build : Build σ) (id : Value) : Except Value Value → σ → Except Value (Json Wide) × σ
  | .ok output, s => (.ok (success id output), s)
  | .error thrown, s =>
    match build.complaint thrown s with
    | (.ok text, s) => (.ok (refusal id text), s)
    | (.error again, s) => (.error again, s)

/-- The reply to a request, or what is thrown over it. Only a call is guarded: the text of
the command is made before. -/
def reply (build : Build σ) (request : Value) (s : σ) :
    Except Value (Json Wide) × σ :=
  let id := memberOf request "id"
  let input := memberOf request "input"
  match (memberOf request "cmd").plainText? with
  | none => (.error Script.noPrimitive, s)
  | some command =>
    if build.entrypoints.contains command then
      let (result, s) := build.call command input (memberOf request "optimize") s
      outcome build id result s
    else (.ok (unannounced id command input), s)

def malformed : Json Wide := refusal .null "malformed request: SyntaxError"

/-- The answer to a line, or what is thrown over it: null has no members that can be read. -/
def answer (build : Build σ) (line : String) (s : σ) :
    Except Value (Json Wide) × σ :=
  match Script.readJson? line with
  | none => (.ok malformed, s)
  | some .null => (.error (Script.typeError "Cannot read properties of null"), s)
  | some request => reply build request s

/-- The answers to lines, up to one that something is thrown over. -/
structure Answers (σ : Type) where
  messages : List (Json Wide)
  state : σ
  thrown : Option Value

def answers (build : Build σ) : List String → σ → Answers σ
  | [], s => ⟨[], s, none⟩
  | line :: rest, s =>
    match answer build line s with
    | (.error thrown, s) => ⟨[], s, some thrown⟩
    | (.ok message, s) =>
      let more := answers build rest s
      { more with messages := message :: more.messages }

end SolcDispatch.Host
