import SolcDispatch.Json.Basic

/-! Places in compiled code that wait for the address of a library. -/

namespace SolcDispatch

/-- A place of `length` bytes from byte `start` on. -/
structure LinkReference where
  start : Nat
  length : Nat
  deriving DecidableEq, Repr

namespace LinkReference

/-- Libraries in the order of their first place, each with its places in order. -/
abbrev ByLibrary := List (String × List LinkReference)

def toJson (r : LinkReference) : Json :=
  .obj [("start", .ofNat r.start), ("length", .ofNat r.length)]

def ByLibrary.insert (refs : ByLibrary) (name : String) (r : LinkReference) : ByLibrary :=
  match refs with
  | [] => [(name, [r])]
  | (key, places) :: rest =>
    if key = name then (key, places ++ [r]) :: rest
    else (key, places) :: ByLibrary.insert rest name r

def ByLibrary.members (refs : ByLibrary) : Json.Members :=
  refs.map fun entry => (entry.1, .arr (entry.2.map toJson))

end LinkReference

end SolcDispatch
