import SolcDispatch.Text.Blank
import SolcDispatch.Text.Utf8

/-! What the depot answers: responses, and the text in the body of one. -/

namespace SolcDispatch

abbrev Headers := List (String × String)

structure Response where
  status : Int := 200
  headers : Headers := []
  body : Text.Bytes := []
  deriving DecidableEq, Repr

/-- What comes of a request: a response, a failure on the way, or nothing at all. -/
inductive Fetched
  | response (r : Response)
  | failed (reason : String)
  | silence
  deriving DecidableEq, Repr

namespace Headers

def lower (s : String) : String := String.ofList (s.toList.map Char.toLower)

/-- The value under a name, in which capitals do not count. -/
def get? (headers : Headers) (name : String) : Option String :=
  (headers.find? fun h => lower h.1 == lower name).map Prod.snd

end Headers

namespace Response

def fieldParts (part : List Char) : List Char → List (List Char)
  | [] => [part.reverse]
  | c :: rest => if c == ';' then part.reverse :: fieldParts [] rest else fieldParts (c :: part) rest

def unquote (cs : List Char) : List Char := cs.filter (· != '"')

def charset? (contentType : String) : Option String :=
  (fieldParts [] contentType.toList).tail.findSome? fun part =>
    let part := Text.trim part
    let name := Text.trim (part.takeWhile (· != '='))
    if Headers.lower (String.ofList name) = "charset" then
      some (Headers.lower (String.ofList (Text.trim (unquote ((part.dropWhile (· != '=')).drop 1)))))
    else none

/-- Names of the character set in which every byte is a character. -/
def latinNames : List String :=
  ["iso-8859-1", "iso8859-1", "iso_8859-1", "iso_8859-1:1987", "iso-ir-100", "latin-1", "latin1",
    "latin_1", "latin", "l1", "cp819", "ibm819", "csisolatin1", "8859", "iso8859_1"]

def asciiNames : List String := ["ascii", "us-ascii", "us_ascii", "646", "ansi_x3.4-1968", "cp367"]

/-- Bytes as characters of seven bits; all others are replaced. -/
def decodeAscii (bytes : Text.Bytes) : String :=
  String.ofList (bytes.map fun b => if b < 0x80 then Char.ofNat b.toNat else '\uFFFD')

/-- The text of a response, in the character set that its content type names. Two sets are known
besides UTF-8, which all other names stand for, those of further sets among them. -/
def text (r : Response) : String :=
  match (r.headers.get? "content-type").bind charset? with
  | some name =>
    if latinNames.contains name then Text.decodeLatin1 r.body
    else if asciiNames.contains name then decodeAscii r.body
    else Text.decodeUtf8 r.body
  | none => Text.decodeUtf8 r.body

def phrase : Int → String
  | 100 => "Continue"
  | 101 => "Switching Protocols"
  | 102 => "Processing"
  | 103 => "Early Hints"
  | 200 => "OK"
  | 201 => "Created"
  | 202 => "Accepted"
  | 203 => "Non-Authoritative Information"
  | 204 => "No Content"
  | 205 => "Reset Content"
  | 206 => "Partial Content"
  | 207 => "Multi-Status"
  | 208 => "Already Reported"
  | 226 => "IM Used"
  | 300 => "Multiple Choices"
  | 301 => "Moved Permanently"
  | 302 => "Found"
  | 303 => "See Other"
  | 304 => "Not Modified"
  | 305 => "Use Proxy"
  | 307 => "Temporary Redirect"
  | 308 => "Permanent Redirect"
  | 400 => "Bad Request"
  | 401 => "Unauthorized"
  | 402 => "Payment Required"
  | 403 => "Forbidden"
  | 404 => "Not Found"
  | 405 => "Method Not Allowed"
  | 406 => "Not Acceptable"
  | 407 => "Proxy Authentication Required"
  | 408 => "Request Timeout"
  | 409 => "Conflict"
  | 410 => "Gone"
  | 411 => "Length Required"
  | 412 => "Precondition Failed"
  | 413 => "Request Entity Too Large"
  | 414 => "Request-URI Too Long"
  | 415 => "Unsupported Media Type"
  | 416 => "Requested Range Not Satisfiable"
  | 417 => "Expectation Failed"
  | 418 => "I'm a teapot"
  | 421 => "Misdirected Request"
  | 422 => "Unprocessable Entity"
  | 423 => "Locked"
  | 424 => "Failed Dependency"
  | 425 => "Too Early"
  | 426 => "Upgrade Required"
  | 428 => "Precondition Required"
  | 429 => "Too Many Requests"
  | 431 => "Request Header Fields Too Large"
  | 451 => "Unavailable For Legal Reasons"
  | 500 => "Internal Server Error"
  | 501 => "Not Implemented"
  | 502 => "Bad Gateway"
  | 503 => "Service Unavailable"
  | 504 => "Gateway Timeout"
  | 505 => "HTTP Version Not Supported"
  | 506 => "Variant Also Negotiates"
  | 507 => "Insufficient Storage"
  | 508 => "Loop Detected"
  | 510 => "Not Extended"
  | 511 => "Network Authentication Required"
  | _ => ""

def redirection? (r : Response) : Option String :=
  if [301, 302, 303, 307, 308].contains r.status then r.headers.get? "location" else none

end Response

end SolcDispatch
