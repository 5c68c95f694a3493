import SolcDispatch.Address
import SolcDispatch.Assoc
import SolcDispatch.Depot.Response

/-! The release depot: what it answers under each path, and requests to it. -/

namespace SolcDispatch

abbrev Depot := List (String × Fetched)

namespace Depot

/-- What the depot answers under a path; there is nothing under an unknown one. -/
def answer (depot : Depot) (path : String) : Fetched :=
  (Assoc.get? depot path).getD (.response { status := 404 })

def maxRedirections : Nat := 20

def tooManyRedirections : String := "Exceeded maximum allowed redirects."

/-- Request an address and follow so many redirections; the paths requested are kept
in order. -/
def follow (depot : Depot) (redirections : Nat) (url : String) (paths : List String) :
    Fetched × List String :=
  let path := Address.path url
  let paths := paths ++ [path]
  match depot.answer path with
  | .response r =>
    match r.redirection? with
    | none => (.response r, paths)
    | some location =>
      match redirections with
      | 0 => (.failed tooManyRedirections, paths)
      | redirections + 1 => follow depot redirections (Address.resolve url location) paths
  | other => (other, paths)

def get (depot : Depot) (follows : Bool) (url : String) : Fetched × List String :=
  if follows then depot.follow maxRedirections url []
  else
    let path := Address.path url
    (depot.answer path, [path])

end Depot

end SolcDispatch
