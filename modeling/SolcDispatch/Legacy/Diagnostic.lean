import SolcDispatch.Failure
import SolcDispatch.Json.Basic

/-! Diagnostics of legacy compilers. A located message names its kind after path,
line and column; any other one is a warning only if it says so. -/

namespace SolcDispatch.Legacy

structure Diagnostic where
  kind : String
  message : String
  deriving DecidableEq, Repr

def beforeLastColon? (cs : List Char) : Option (List Char) :=
  match cs.reverse.dropWhile (· != ':') with
  | [] => none
  | _ :: before => some before.reverse

def afterNumber? (cs : List Char) : Option (List Char) :=
  match (CompilerVersion.digitRun? cs).map Prod.snd with
  | some (':' :: rest) => some rest
  | _ => none

/-- The kind in the text after the colon that ends a path: what stands between the
column and the last colon. -/
def kindAfterPath? (cs : List Char) : Option (List Char) := do
  let cs ← afterNumber? cs
  let cs ← afterNumber? cs
  beforeLastColon? cs

/-- The kind that the longest possible path leaves; `best` is the one found so far. -/
def locatedKindFrom (best : Option (List Char)) : List Char → Option (List Char)
  | [] => best
  | c :: rest =>
    if c == ':' then locatedKindFrom ((kindAfterPath? rest).or best) rest
    else locatedKindFrom best rest

/-- The kind of a message that begins with a location on its first line. -/
def locatedKind? (message : String) : Option String :=
  (locatedKindFrom none (message.toList.takeWhile (· != '\n'))).map
    fun kind => String.ofList (Text.trim kind)

def occursIn (part : List Char) : List Char → Bool
  | [] => part.isEmpty
  | c :: rest => part.isPrefixOf (c :: rest) || occursIn part rest

def kindOf (message : String) : String :=
  match locatedKind? message with
  | some kind => kind
  | none => if occursIn ": Warning:".toList message.toList then "Warning" else "Error"

def Diagnostic.ofMessage (message : String) : Diagnostic := ⟨kindOf message, message⟩

def Diagnostic.severity (d : Diagnostic) : String :=
  if d.kind = "Warning" then "warning" else "error"

def Diagnostic.toJson (d : Diagnostic) : Json :=
  .obj [("type", .str d.kind), ("component", .str "general"), ("severity", .str d.severity),
    ("message", .str d.message), ("formattedMessage", .str d.message)]

/-- What a list of messages holds: the items of a list, the characters of a text, the
names of an object. -/
def itemsOf : Json → Except Failure (List Json)
  | .arr items => .ok items
  | .str s => .ok (s.toList.map fun c => .str (String.singleton c))
  | .obj members => .ok (members.map fun m => .str m.1)
  | _ => .error .internal

/-- The diagnostics of messages, all of which must be texts. -/
def readDiagnostics (messages : List Json) : Except Failure (List Diagnostic) :=
  messages.mapM fun
    | .str message => .ok (.ofMessage message)
    | _ => .error .internal

end SolcDispatch.Legacy
