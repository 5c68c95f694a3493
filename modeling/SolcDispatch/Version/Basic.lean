import SolcDispatch.Json.ParseError
import SolcDispatch.Text.Blank
import SolcDispatch.Text.DecimalDigit
import SolcDispatch.Text.Quoted

/-! Identifiers of compiler releases, such as `v0.8.20+commit.a1b79de6` and
`v0.4.1-nightly.2016.9.9+commit.79867f4`: three numbers, an optional prerelease
and an optional build. -/

namespace SolcDispatch

structure CompilerVersion where
  major : Int
  minor : Int
  patch : Int
  prerelease : Option String := none
  build : Option String := none
  deriving DecidableEq, Repr

inductive VersionError
  | notAVersion (text : String)
  | longNumber (digits : Nat)
  deriving DecidableEq, Repr

def VersionError.message : VersionError → String
  | .notAVersion text => s!"Not a compiler version: {Text.quoted text}"
  | .longNumber digits => Json.longIntegerMessage digits

namespace CompilerVersion

/-- A suffix with its mark, where a missing and an empty one are both left out. -/
def suffixText (mark : String) : Option String → String
  | some text => if text = "" then "" else mark ++ text
  | none => ""

/-- The identifier used in artifact names: numbers without leading zeros after a
`v`, then the suffixes. -/
def canonical (v : CompilerVersion) : String :=
  s!"v{v.major}.{v.minor}.{v.patch}" ++ suffixText "-" v.prerelease ++ suffixText "+" v.build

def isSuffixChar (c : Char) : Bool := c.isAlphanum || c == '.' || c == '-'

/-- A run of decimal digits of any script, and the text after it. -/
def digitRun? (cs : List Char) : Option (List Char × List Char) :=
  match cs.takeWhile Text.isDecimalDigit with
  | [] => none
  | run => some (run, cs.dropWhile Text.isDecimalDigit)

/-- A character that must come next, left out of the text. -/
def expect? (c : Char) : List Char → Option (List Char)
  | [] => none
  | d :: rest => if c = d then some rest else none

/-- An optional suffix after its mark: absent if the mark is not there, refused if
nothing follows the mark. -/
def suffix? (mark : Char) : List Char → Option (Option String × List Char)
  | [] => some (none, [])
  | c :: rest =>
    if c = mark then
      match rest.takeWhile isSuffixChar with
      | [] => none
      | run => some (some (String.ofList run), rest.dropWhile isSuffixChar)
    else some (none, c :: rest)

/-- The parts of an identifier before its numbers are read. -/
structure Parts where
  major : List Char
  minor : List Char
  patch : List Char
  prerelease : Option String
  build : Option String

/-- The parts of a text without blanks at its ends, if it has the form of an
identifier. -/
def parts? (cs : List Char) : Option Parts := do
  let cs := (expect? 'v' cs).getD cs
  let (major, cs) ← digitRun? cs
  let cs ← expect? '.' cs
  let (minor, cs) ← digitRun? cs
  let cs ← expect? '.' cs
  let (patch, cs) ← digitRun? cs
  let (prerelease, cs) ← suffix? '-' cs
  let (build, cs) ← suffix? '+' cs
  if cs.isEmpty then some ⟨major, minor, patch, prerelease, build⟩ else none

/-- The number that a run of digits writes, unless it is too long to be read. -/
def number (run : List Char) : Except VersionError Int :=
  if Json.maxDigits < run.length then .error (.longNumber run.length)
  else .ok (Text.digitsValue run)

/-- Read an identifier, with or without the leading `v` and blanks around it. -/
def parse (text : String) : Except VersionError CompilerVersion :=
  match parts? (Text.trim text.toList) with
  | none => .error (.notAVersion text)
  | some parts => do
    let major ← number parts.major
    let minor ← number parts.minor
    let patch ← number parts.patch
    return ⟨major, minor, patch, parts.prerelease, parts.build⟩

def parse? (text : String) : Option CompilerVersion := (parse text).toOption

/-- The one spelling of a text that is an identifier. -/
def canonical? (text : String) : Option String := (parse? text).map canonical

end CompilerVersion

end SolcDispatch
