import SolcDispatch.Broker.Basic

/-! Getting builds before anyone needs them. One that cannot be had does not keep the
others away. -/

namespace SolcDispatch

/-- What warming comes to for each distinct version text: the path of its build, or why
there is none. -/
abbrev Warmed := List (String × String)

/-- The word before the reason why a build cannot be had. -/
def Warmed.errorMark : String := "error:"

/-- The text of a foreseen outcome; an unforeseen failure stops the warming. -/
def Warmed.textOf : Except Failure FilePath → Except Failure String
  | .ok path => .ok path.toText
  | .error f => if f.isForeseen then .ok s!"{errorMark} {f.message}" else .error f

def Warmed.isError (text : String) : Bool := errorMark.toList.isPrefixOf text.toList

namespace Broker

variable {σ : Type}

/-- Get the builds of versions one after another, beyond those that are done already.
There is no answer as long as the depot is silent. -/
def warmFrom (around : Surroundings σ) (done : Warmed) (paths : List String) (b : Broker) :
    List String → Option (Except Failure Warmed) × List String × Broker
  | [] => (some (.ok done), paths, b)
  | version :: rest =>
    let (acquired, more, b) := b.acquire around version
    match acquired with
    | none => (none, paths ++ more, b)
    | some outcome => match Warmed.textOf outcome with
      | .error failure => (some (.error failure), paths ++ more, b)
      | .ok text => warmFrom around (Assoc.put done version text) (paths ++ more) b rest

def warm (around : Surroundings σ) (b : Broker) (versions : List String) :
    Option (Except Failure Warmed) × List String × Broker :=
  warmFrom around [] [] b versions

end Broker

end SolcDispatch
