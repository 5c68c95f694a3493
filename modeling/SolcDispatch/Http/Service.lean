import SolcDispatch.Broker.Compile
import SolcDispatch.Http.CompileRequest
import SolcDispatch.Http.CrossOrigin
import SolcDispatch.Http.Health
import SolcDispatch.Http.SizeLimit

/-! The service that answers requests with the help of a broker. The length of a
request is looked at first, then where it comes from, then what it asks for. A failure
that nobody foresees passes by all but the last resort. -/

namespace SolcDispatch.Http

structure Service where
  environment : Environment := .dev
  maxRequestBytes : Int
  broker : Option Broker

/-- What a request has led to: how it was served, what was logged, the calls made, the
paths requested from the depot, and the broker after it. -/
structure Exchange where
  served : Served
  log : List LogEntry := []
  calls : List Call := []
  paths : List String := []
  broker : Option Broker

inductive Route
  | compile
  | health
  | version
  deriving DecidableEq, Repr

namespace Route

def path : Route → String
  | compile => "/v1/compile"
  | health => "/health"
  | version => "/api/version"

def method : Route → String
  | compile => "POST"
  | health | version => "GET"

def ofPath? (path : String) : Option Route := [compile, health, version].find? (·.path == path)

end Route

namespace Service

variable {σ : Type}

def answer (s : Service) (response : Response) : Exchange :=
  { served := .answered response, broker := s.broker }

def fail (s : Service) (f : Failure) : Exchange :=
  let (served, log) := ofFailure f
  { served, log, broker := s.broker }

/-- How the end of a compilation is answered. A result is sent as it is, if its numbers
can be written. -/
def ofEnding : Ending → Served × List LogEntry
  | .finished (.ok result) =>
    if result.allFinite then (.answered (jsonResponse 200 (success result)), [])
    else (.escaped .notFinite, [])
  | .finished (.error f) => ofFailure f
  | .cancelled => (.waiting, [])

def compileBody (around : Surroundings σ) (s : Service) (body : Body) : Exchange :=
  match body.refusal? with
  | some response => s.answer response
  | none => match s.broker with
    | none => s.fail .notRunning
    | some b => match CompileRequest.ofBody body with
      | .error fault => s.answer (faulty [fault])
      | .ok wanted =>
        let c := b.compile around false wanted.version wanted.input
        let (served, log) := ofEnding c.ending
        { served, log, calls := c.calls, paths := c.paths, broker := some c.broker }

def healthReport (s : Service) : Exchange :=
  match s.broker with
  | none => s.fail .notRunning
  | some b =>
    let (health, b) := Health.ofBroker b
    { served := .answered (jsonResponse 200 (health.report s.environment)), broker := some b }

/-- Serve a request under a route that is there for its method. -/
def serveRoute (around : Surroundings σ) (s : Service) (r : Request) : Route → Exchange
  | .compile => s.compileBody around (.ofRequest r)
  | .health => s.healthReport
  | .version => s.answer (jsonResponse 200 (versionReport s.environment))

/-- The host of a service whose requests name none. -/
def defaultHost : String := "testserver"

/-- The way to the path without slashes at its end. -/
def redirection (r : Request) (path : String) : Response :=
  let host := (r.header? "host").getD defaultHost
  let query := if r.query = "" then "" else "?" ++ r.query
  { status := 307, headers := [("location", "http://" ++ host ++ path ++ query)] }

def wrongMethod (route : Route) : Response :=
  withHeaders [("allow", route.method)] (detailResponse 405 "Method Not Allowed")

def serve (around : Surroundings σ) (s : Service) (r : Request) : Exchange :=
  match Route.ofPath? r.path with
  | some route =>
    if r.method = route.method then s.serveRoute around r route else s.answer (wrongMethod route)
  | none =>
    let path := Text.stripSlashes r.path
    if (Route.ofPath? path).isSome then s.answer (redirection r path)
    else s.answer (detailResponse 404 "Not Found")

def anyOrigin (s : Service) : Bool := s.environment == .dev

/-- Serve a request that may come from a page of another site. -/
def serveCrossOrigin (around : Surroundings σ) (s : Service) (r : Request) : Exchange :=
  match CrossOrigin.question? r with
  | some (origin, method) => s.answer (CrossOrigin.answer s.anyOrigin r origin method)
  | none =>
    let e := s.serve around r
    { e with served := e.served.map (CrossOrigin.label s.anyOrigin r) }

/-- Serve a request whose length is within the limit. -/
def serveLimited (around : Surroundings σ) (s : Service) (r : Request) : Exchange :=
  match refuseLength s.maxRequestBytes r with
  | some served => { served, broker := s.broker }
  | none => s.serveCrossOrigin around r

/-- The response to a `HEAD` request has no body. -/
def withoutBody (r : Request) (response : Response) : Response :=
  if r.method = "HEAD" then { response with body := [] } else response

/-- Handle a request. A failure that escapes is answered here. -/
def handle (around : Surroundings σ) (s : Service) (r : Request) : Exchange :=
  let e := s.serveLimited around r
  let e := match e.served with
    | .escaped failure =>
      let (response, log) := unforeseen failure
      { e with served := .answered response, log := e.log ++ log }
    | _ => e
  { e with served := e.served.map (withoutBody r) }

end Service

end SolcDispatch.Http
