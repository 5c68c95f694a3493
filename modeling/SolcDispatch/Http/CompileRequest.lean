import SolcDispatch.Http.Message
import SolcDispatch.Json.Parser

/-! Reading what a request wants compiled: an object with a version and an input. -/

namespace SolcDispatch.Http

structure CompileRequest where
  version : String
  input : Json

/-- The body of a request. One that does not say it is JSON is not read. -/
inductive Body
  | absent
  | unread
  | malformed (offset : Nat)
  | unreadable
  | value (value : Json)

/-- The part of a content type before its parameters, in small letters. -/
def mediaType (contentType : String) : String :=
  Headers.lower (String.ofList (Text.trim (contentType.toList.takeWhile (· != ';'))))

/-- Whether a content type is that of JSON or of a format built on it. -/
def isJsonType (contentType : String) : Bool :=
  match Address.segments [] (mediaType contentType).toList with
  | [kind, subtype] =>
    kind == "application".toList &&
      (subtype == "json".toList || "+json".toList.isSuffixOf subtype)
  | _ => false

def Body.ofRequest (r : Request) : Body :=
  if r.body.isEmpty then .absent
  else if !isJsonType ((r.header? "content-type").getD "") then .unread
  else match Json.parseBytes? r.body with
    | some (.ok read) => .value read
    | some (.error (.malformed _ _ _ offset)) => .malformed offset
    | some (.error (.longInteger _)) => .unreadable
    | none => .unreadable

/-- A place in a request at which it is at fault, and what is asked for there. -/
abbrev RequestFault := String

def fault (place complaint : String) : RequestFault := s!"{place}: {complaint}"

def faulty (faults : List RequestFault) : Response :=
  refusalResponse 400 ("invalid request: " ++ "; ".intercalate faults)

/-- The response to a body that cannot even be looked at. -/
def Body.refusal? : Body → Option Response
  | .malformed offset => some (faulty [fault s!"body.{offset}" "JSON decode error"])
  | .unreadable => some (detailResponse 400 "There was an error parsing the body")
  | _ => none

def notAnObject : RequestFault :=
  fault "body" "Input should be a valid dictionary or object to extract fields from"

def CompileRequest.ofJson (value : Json) : Except RequestFault CompileRequest :=
  if !value.isObject then .error notAnObject
  else match value.get? "version" with
    | some (.str version) => .ok ⟨version, value.getD "input"⟩
    | some _ => .error (fault "body.version" "Input should be a valid string")
    | none => .error (fault "body.version" "Field required")

def CompileRequest.ofBody : Body → Except RequestFault CompileRequest
  | .value read => ofJson read
  | .absent => .error (fault "body" "Field required")
  | _ => .error notAnObject

end SolcDispatch.Http
