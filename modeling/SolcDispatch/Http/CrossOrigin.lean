import SolcDispatch.Http.Message

/-! Requests from pages of other sites. A browser asks first whether it may send one;
whether it may is also said with every response. -/

namespace SolcDispatch.Http.CrossOrigin

def methods : List String := ["DELETE", "GET", "HEAD", "OPTIONS", "PATCH", "POST", "PUT", "QUERY"]

def methodField : String := "access-control-request-method"
def headersField : String := "access-control-request-headers"
def networkField : String := "access-control-request-private-network"

/-- Seconds for which the answer to a question is good. -/
def maxAge : String := "600"

/-- The request fields on which the answer to a question depends. -/
def questionVary : String :=
  ", ".intercalate ["Origin", "Access-Control-Request-Method", "Access-Control-Request-Headers",
    "Access-Control-Request-Private-Network"]

def credentials : String × String := ("access-control-allow-credentials", "true")

/-- The site that a request comes from, if its pages may read the response. -/
def originHeader (anyOrigin : Bool) (origin : String) : Headers :=
  if anyOrigin then [("access-control-allow-origin", origin)] else []

/-- The question a browser asks first: from which site and with which method. -/
def question? (r : Request) : Option (String × String) :=
  if r.method = "OPTIONS" then
    match r.header? "origin", r.header? methodField with
    | some origin, some method => some (origin, method)
    | _, _ => none
  else none

def objections (anyOrigin : Bool) (r : Request) (method : String) : List String :=
  (if anyOrigin then [] else ["origin"]) ++
    (if methods.contains method then [] else ["method"]) ++
    (if r.header? networkField = some "true" then ["private-network"] else [])

/-- The answer to the question whether a request may be sent. All headers may be. -/
def answer (anyOrigin : Bool) (r : Request) (origin method : String) : Response :=
  let headers := [("access-control-allow-methods", ", ".intercalate methods),
    ("access-control-max-age", maxAge), credentials, ("vary", questionVary)] ++
    originHeader anyOrigin origin ++
    ((r.header? headersField).map fun field => ("access-control-allow-headers", field)).toList
  withHeaders headers <| match objections anyOrigin r method with
    | [] => textResponse 200 "OK"
    | against => textResponse 400 ("Disallowed CORS " ++ ", ".intercalate against)

/-- What is said with every response. -/
def label (anyOrigin : Bool) (r : Request) (response : Response) : Response :=
  withHeaders (match r.header? "origin" with
    | some origin => ("vary", "Origin") :: credentials :: originHeader anyOrigin origin
    | none => [("vary", "Origin")]) response

end SolcDispatch.Http.CrossOrigin
