import SolcDispatch.LinkReference.Basic
import SolcDispatch.Text.Blank

/-! Placeholders of libraries in hexadecimal code: two underscores, the name filled
up with underscores to 36 characters, and two underscores. -/

namespace SolcDispatch.LinkReference

/-- The characters between the marks of a placeholder. -/
def nameWidth : Nat := 36

def placeholderBytes : Nat := 20

/-- The name of the placeholder with which a text begins. -/
def placeholder? : List Char → Option (List Char)
  | '_' :: '_' :: rest =>
    let name := rest.take nameWidth
    match rest.drop nameWidth with
    | '_' :: '_' :: _ =>
      if name.contains '\n' then none else some (Text.dropLastWhile (· == '_') name)
    | _ => none
  | _ => none

/-- The placeholders of a text whose first character has the given offset, after
`skip` characters. The scan goes on 20 characters after the start of a placeholder. -/
def scan (skip offset : Nat) : List Char → List (String × LinkReference)
  | [] => []
  | c :: rest =>
    match skip with
    | skip + 1 => scan skip (offset + 1) rest
    | 0 =>
      match placeholder? (c :: rest) with
      | some name =>
        (String.ofList name, ⟨offset / 2, placeholderBytes⟩) ::
          scan (placeholderBytes - 1) (offset + 1) rest
      | none => scan 0 (offset + 1) rest

def find (code : String) : ByLibrary :=
  (scan 0 0 code.toList).foldl (fun refs found => refs.insert found.1 found.2) []

end SolcDispatch.LinkReference
