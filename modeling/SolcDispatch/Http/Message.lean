import SolcDispatch.Address
import SolcDispatch.Depot.Response
import SolcDispatch.Failure
import SolcDispatch.Json.Printer

/-! Requests to the service, and the responses it sends: a result or an error in an
envelope, or the detail of a request that it does not serve. -/

namespace SolcDispatch.Http

structure Request where
  method : String
  path : String
  query : String := ""
  headers : Headers := []
  body : Text.Bytes := []
  deriving DecidableEq, Repr

def Request.ofTarget (method target : String) (headers : Headers) (body : Text.Bytes) : Request :=
  let (path, query) := Address.target target
  { method := String.ofList (method.toList.map Char.toUpper), path, query, headers, body }

def Request.header? (r : Request) (name : String) : Option String := r.headers.get? name

/-- An entry of the service's log: its level, what happened and the class of a failure. -/
structure LogEntry where
  level : String
  event : String
  failure : Option FailureClass := none
  deriving DecidableEq, Repr

def jsonType : String := "application/json"
def textType : String := "text/plain; charset=utf-8"

def jsonResponse (status : Nat) (value : Json) : Response :=
  { status, headers := [("content-type", jsonType)]
    body := Text.utf8 (Json.print Json.compactUnicode value) }

def textResponse (status : Nat) (text : String) : Response :=
  { status, headers := [("content-type", textType)], body := Text.utf8 text }

def success (result : Json) : Json := .obj [("ok", .bool true), ("result", result)]

def refusal (error : String) : Json := .obj [("ok", .bool false), ("error", .str error)]

def refusalResponse (status : Nat) (error : String) : Response :=
  jsonResponse status (refusal error)

def detailResponse (status : Nat) (text : String) : Response :=
  jsonResponse status (.obj [("detail", .str text)])

def withHeaders (headers : Headers) (r : Response) : Response :=
  { r with headers := r.headers ++ headers }

/-- What serving a request comes to: a response, a failure that nobody foresees, or
nothing as long as it waits. -/
inductive Served
  | answered (response : Response)
  | escaped (failure : Failure)
  | waiting
  deriving DecidableEq, Repr

def Served.map (f : Response → Response) : Served → Served
  | .answered response => .answered (f response)
  | other => other

def firstLoggedStatus : Nat := 500

/-- A foreseen failure is answered with the status of its class. -/
def ofFailure (f : Failure) : Served × List LogEntry :=
  match f.failureClass.status? with
  | some status =>
    (.answered (refusalResponse status f.message),
      if firstLoggedStatus ≤ status then [⟨"warning", "compile_failed", some f.failureClass⟩]
      else [])
  | none => (.escaped f, [])

/-- The response to a failure that nobody foresees. -/
def unforeseen (f : Failure) : Response × List LogEntry :=
  (refusalResponse 500 s!"failed to compile: {f.message}", [⟨"error", "unexpected_error", none⟩])

end SolcDispatch.Http
