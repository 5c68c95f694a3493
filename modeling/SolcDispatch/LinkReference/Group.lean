import SolcDispatch.LinkReference.Basic

/-! Grouping link references by source. A library listed without a source belongs
to the source with the empty name. -/

namespace SolcDispatch.LinkReference

/-- Sources, then the libraries listed without one. -/
def split (members : Json.Members) : Json.Members × Json.Members :=
  members.partition fun m => !m.2.isArray

/-- The group of the empty source name with further libraries; anything there that
is not an object is replaced. -/
def joinGroup (existing : Option Json) (libraries : Json.Members) : Json :=
  match existing with
  | some (.obj members) => .obj (Assoc.putAll members libraries)
  | _ => .obj libraries

/-- Move libraries listed without a source into the group of the empty source name. -/
def group (members : Json.Members) : Json.Members :=
  let (sources, libraries) := split members
  if libraries.isEmpty then members
  else Assoc.put sources "" (joinGroup (Assoc.get? sources "") libraries)

/-- Whether every library is listed under a source. -/
def isGrouped (members : Json.Members) : Bool := !members.any fun m => m.2.isArray

end SolcDispatch.LinkReference
