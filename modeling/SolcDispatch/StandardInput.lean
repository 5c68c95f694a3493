import SolcDispatch.Failure
import SolcDispatch.Json.Printer

/-! Input documents of compilers: a language, sources by path, and settings. Keys
that are not known are kept and sent on. -/

namespace SolcDispatch

/-- A source; further keys, such as addresses to fetch it from, are kept. -/
structure SourceEntry (τ : Type := String) where
  content : Option τ
  extras : Json.Members τ

structure StandardInput (τ : Type := String) where
  language : τ
  sources : List (τ × SourceEntry τ)
  settings : Json.Members τ
  extras : Json.Members τ

namespace StandardInput

/-- The name of a known key, as a text of any kind. -/
abbrev key {τ : Type} [TextLike τ] (name : String) : τ := TextLike.ofString name

/-- Where a document is at fault, and how. -/
structure Violation (τ : Type := String) where
  location : List τ
  message : String

variable {τ : Type}

def Violation.text [TextLike τ] (v : Violation τ) : τ :=
  let place := if v.location.isEmpty then [key "input"] else v.location
  TextLike.ofCodes ([0x2E].intercalate (place.map TextLike.codes) ++
    (": " ++ v.message).toList.map Char.toNat)

def notAString : String := "Input should be a valid string"
def notADictionary : String := "Input should be a valid dictionary"
def fieldRequired : String := "Field required"

/-- A dictionary is asked for in the place of a part of the given kind. -/
def notAPart (kind : String) : String := s!"{notADictionary} or instance of {kind}"

/-- A part of a document, or all that is wrong with it. -/
abbrev Checked (τ α : Type) := Except (List (Violation τ)) α

def refuse {α : Type} (location : List τ) (message : String) : Checked τ α :=
  .error [⟨location, message⟩]

def faults {α : Type} : Checked τ α → List (Violation τ)
  | .ok _ => []
  | .error violations => violations

section Check

variable [TextLike τ]

def checkLanguage : Option (Json τ) → Checked τ τ
  | none => .ok (key "Solidity")
  | some (.str s) => .ok s
  | some _ => refuse [key "language"] notAString

def checkContent (path : τ) : Option (Json τ) → Checked τ (Option τ)
  | none => .ok none
  | some .null => .ok none
  | some (.str s) => .ok (some s)
  | some _ => refuse [key "sources", path, key "content"] notAString

def checkSettings : Option (Json τ) → Checked τ (Json.Members τ)
  | none => .ok []
  | some .null => .ok []
  | some (.obj members) => .ok members
  | some _ => refuse [key "settings"] notADictionary

variable [DecidableEq τ]

def checkEntry (path : τ) : Json τ → Checked τ (SourceEntry τ)
  | .obj members =>
    (checkContent path (Assoc.get? members (key "content"))).map fun content =>
      ⟨content, Assoc.without members [key "content"]⟩
  | _ => refuse [key "sources", path] (notAPart "SourceEntry")

/-- Check every entry; all faults are kept, in order. -/
def checkEntries : Json.Members τ → Checked τ (List (τ × SourceEntry τ))
  | [] => .ok []
  | (path, value) :: rest =>
    match checkEntry path value, checkEntries rest with
    | .ok entry, .ok entries => .ok ((path, entry) :: entries)
    | entry, entries => .error (faults entry ++ faults entries)

def checkSources : Option (Json τ) → Checked τ (List (τ × SourceEntry τ))
  | none => refuse [key "sources"] fieldRequired
  | some (.obj members) => checkEntries members
  | some _ => refuse [key "sources"] notADictionary

/-- The document in a value, or everything that is wrong with it: first the
language, then the sources in their order, then the settings. -/
def check : Json τ → Checked τ (StandardInput τ)
  | .obj members =>
    let language := checkLanguage (Assoc.get? members (key "language"))
    let sources := checkSources (Assoc.get? members (key "sources"))
    let settings := checkSettings (Assoc.get? members (key "settings"))
    match language, sources, settings with
    | .ok language, .ok sources, .ok settings =>
      .ok ⟨language, sources, settings,
        Assoc.without members [key "language", key "sources", key "settings"]⟩
    | language, sources, settings =>
      .error (faults language ++ faults sources ++ faults settings)
  | _ => refuse [] (notAPart "StandardInputDocument")

/-- The document in a value, or the texts of all violations. -/
def parse (raw : Json τ) : Except (List τ) (StandardInput τ) :=
  (check raw).mapError fun violations => violations.map Violation.text

def optimizerEnabled (document : StandardInput τ) : Bool :=
  match Assoc.get? document.settings (key "optimizer") with
  | some (.obj optimizer) => (Json.getD (.obj optimizer) (key "enabled")).truthy
  | _ => false

/-- The documents to compile beforehand, in order. -/
def seeds (document : StandardInput τ) : List (Json τ) :=
  match Assoc.get? document.settings (key "nonDeterministicSeeds") with
  | some (.arr seeds) => seeds
  | _ => []

/-- The document without settings of the model checker. -/
def withoutModelChecker (document : StandardInput τ) : StandardInput τ :=
  { document with settings := Assoc.without document.settings [key "modelChecker"] }

end Check

mutual

/-- How deep a value is nested; one that holds no other has depth one. -/
def depth : Json τ → Nat
  | .arr items => 1 + itemsDepth items
  | .obj members => 1 + membersDepth members
  | _ => 1

def itemsDepth : List (Json τ) → Nat
  | [] => 0
  | item :: rest => max (depth item) (itemsDepth rest)

def membersDepth : List (τ × Json τ) → Nat
  | [] => 0
  | (_, value) :: rest => max (depth value) (membersDepth rest)

end

def maxDepth : Nat := 255

mutual

/-- A value with null in the place of numbers that are not finite. -/
def finitePart : Json τ → Json τ
  | .float x => if x.isFinite then .float x else .null
  | .arr items => .arr (finiteItems items)
  | .obj members => .obj (finiteMembers members)
  | value => value

def finiteItems : List (Json τ) → List (Json τ)
  | [] => []
  | item :: rest => finitePart item :: finiteItems rest

def finiteMembers : List (τ × Json τ) → List (τ × Json τ)
  | [] => []
  | (name, value) :: rest => (name, finitePart value) :: finiteMembers rest

end

def sentExtras (extras : Json.Members τ) : Except Failure (Json.Members τ) :=
  if extras.any fun m => maxDepth < depth m.2 then .error .nestedTooDeep
  else .ok (finiteMembers extras)

section Sent

variable [TextLike τ]

/-- A source as it is sent on, without keys whose value is null. -/
def sentEntry (entry : SourceEntry τ) : Except Failure (Json τ) := do
  let extras ← sentExtras (entry.extras.filter fun m => !m.2.isNull)
  return .obj ((entry.content.map fun text => (key "content", .str text)).toList ++ extras)

def sentSources (sources : List (τ × SourceEntry τ)) : Except Failure (Json.Members τ) :=
  sources.mapM fun (path, entry) => do return (path, ← sentEntry entry)

def payload (document : StandardInput τ) : Except Failure (Json τ) := do
  let extras ← sentExtras document.extras
  let sources ← sentSources document.sources
  return .obj ((key "language", .str document.language) :: extras ++
    [(key "sources", .obj sources), (key "settings", .obj document.settings)])

/-- The text of the document as a compiler gets it. -/
def payloadText (document : StandardInput τ) : Except Failure String :=
  document.payload.map Json.text

/-- What is recorded of a document that was compiled beforehand. -/
def provenance [DecidableEq τ] (document : StandardInput τ) : Except Failure (Json τ) := do
  let payload ← document.payload
  return .obj [(key "sources", payload.getD (key "sources")),
    (key "settings", payload.getD (key "settings"))]

end Sent

end StandardInput

end SolcDispatch
