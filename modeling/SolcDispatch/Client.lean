import SolcDispatch.Address
import SolcDispatch.Http.Service

/-! A client of the service: the request it sends, and what it makes of the response. -/

namespace SolcDispatch

/-- Why a client has no result: a text, and the status of the response if there was one. -/
structure Unavailable where
  message : String
  status : Option Int := none
  deriving DecidableEq, Repr

namespace Client

def url (host : String) : String := Text.stripSlashes host ++ Http.Route.compile.path

/-- The text of a request; numbers in it must be finite. -/
def bodyText (version : String) (input : Json) : Except Failure String :=
  if input.allFinite then
    .ok (Json.print Json.compactUnicode (.obj [("version", .str version), ("input", input)]))
  else .error .notFinite

/-- The request for compiling a document with a version. -/
def request (host version : String) (input : Json) : Except Failure Http.Request :=
  (bodyText version input).map fun text =>
    let body := Text.utf8 text
    { method := Http.Route.compile.method, path := Address.path (url host)
      headers := [("content-type", Http.jsonType), ("content-length", toString body.length)], body }

/-- The envelope in a response, if there is one. -/
def envelope? (r : Response) : Option Json :=
  match Json.parseBytes? r.body with
  | some (.ok value) => if value.isObject then some value else none
  | _ => none

def errorOf (r : Response) (envelope : Option Json) : Unavailable :=
  let error := (envelope.getD .null).getD "error"
  { message := if error.truthy then error.plain else s!"compile service returned {r.status}"
    status := some r.status }

/-- The result in a response; an empty object stands for one that counts as false. -/
def read (r : Response) : Except Unavailable Json :=
  match envelope? r with
  | some envelope =>
    if r.status = 200 && (envelope.getD "ok").truthy then
      let result := envelope.getD "result"
      .ok (if result.truthy then result else .obj [])
    else .error (errorOf r (some envelope))
  | none => .error (errorOf r none)

/-- What a client makes of all that may come of its request; nothing as long as it
waits. -/
def outcome : Fetched → Option (Except Unavailable Json)
  | .response r => some (read r)
  | .failed reason => some (.error { message := s!"compile service unreachable: {reason}" })
  | .silence => none

/-- What came of a request that a service has served. -/
def fetched : Http.Served → Fetched
  | .answered response => .response response
  | _ => .silence

end Client

end SolcDispatch
