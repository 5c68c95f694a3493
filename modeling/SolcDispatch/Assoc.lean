/-! Lists of named values in the order in which the names came first. -/

namespace SolcDispatch.Assoc

variable {κ : Type} [DecidableEq κ] {α : Type}

/-- The value of the first entry with the given name. -/
def get? (entries : List (κ × α)) (name : κ) : Option α :=
  match entries with
  | [] => none
  | (key, value) :: rest => if key = name then some value else get? rest name

def hasKey (entries : List (κ × α)) (name : κ) : Bool := (get? entries name).isSome

/-- Give a name a value: the place of a name that is already there is kept, a new
name goes to the end. -/
def put (entries : List (κ × α)) (name : κ) (value : α) : List (κ × α) :=
  match entries with
  | [] => [(name, value)]
  | (key, old) :: rest =>
    if key = name then (key, value) :: rest else (key, old) :: put rest name value

/-- Put all entries of a second list after another. -/
def putAll (entries added : List (κ × α)) : List (κ × α) :=
  added.foldl (fun es e => put es e.1 e.2) entries

/-- Each name once: the last value under a name, at the place of the first. -/
def ofPairs (pairs : List (κ × α)) : List (κ × α) := putAll [] pairs

/-- The entries whose names are not among the given ones. -/
def without (entries : List (κ × α)) (names : List κ) : List (κ × α) :=
  entries.filter fun e => !names.contains e.1

end SolcDispatch.Assoc
