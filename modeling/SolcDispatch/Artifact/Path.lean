/-! Paths of files. Empty components and single dots are left out; two dots stay. -/

namespace SolcDispatch

/-- A path from a root, which is empty, one slash or two slashes. -/
structure FilePath where
  root : String
  parts : List String
  deriving DecidableEq, Repr

namespace FilePath

def pieces (part : List Char) : List Char → List (List Char)
  | [] => [part.reverse]
  | c :: rest => if c == '/' then part.reverse :: pieces [] rest else pieces (c :: part) rest

def isKept (part : String) : Bool := part != "" && part != "."

def rootOf : List Char → String
  | '/' :: '/' :: '/' :: _ => "/"
  | '/' :: '/' :: _ => "//"
  | '/' :: _ => "/"
  | _ => ""

def ofString (s : String) : FilePath :=
  ⟨rootOf s.toList, ((pieces [] s.toList).map String.ofList).filter isKept⟩

/-- The second path inside the first; a second path with a root stands for itself. -/
def join (a b : FilePath) : FilePath :=
  if b.root = "" then ⟨a.root, a.parts ++ b.parts⟩ else b

def child (path : FilePath) (name : String) : FilePath := path.join (ofString name)

def parent (path : FilePath) : FilePath := { path with parts := path.parts.dropLast }

def fileName (path : FilePath) : String := path.parts.getLastD ""

def toText (path : FilePath) : String :=
  if path.root = "" && path.parts.isEmpty then "."
  else path.root ++ "/".intercalate path.parts

end FilePath

end SolcDispatch
