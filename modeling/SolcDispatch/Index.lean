import SolcDispatch.Artifact.Name
import SolcDispatch.Version.Order

/-! Lists of builds in the depot, one name a line. Lines that name no build of the
list's kind are passed over. -/

namespace SolcDispatch.Index

/-- A set of versions in their canonical spellings, each once. -/
abbrev Versions := List String

def insert (versions : Versions) (canonical : String) : Versions :=
  if versions.contains canonical then versions else versions ++ [canonical]

def between? (start finish : String) (name : List Char) : Option (List Char) :=
  if start.toList.isPrefixOf name && finish.toList.isSuffixOf name then
    some ((name.drop start.length).take (name.length - start.length - finish.length))
  else none

def scriptedVersion? (line : String) : Option CompilerVersion :=
  (between? Artifact.scriptedStart Artifact.scriptedEnd (Text.trim line.toList)).bind
    fun version => CompilerVersion.parse? (String.ofList version)

def nativeVersion? (platform : String) (line : String) : Option CompilerVersion :=
  (between? (Artifact.nativeStart platform) "" (Text.trim line.toList)).bind
    fun version => CompilerVersion.parse? (String.ofList version)

def collect (versions : List CompilerVersion) : Versions :=
  versions.foldl (fun set v => insert set v.canonical) []

def scripted (lines : List String) : Versions := collect (lines.filterMap scriptedVersion?)

/-- The versions in a list of native builds that are not older than the floor. -/
def native (platform : String) (floor : CompilerVersion) (lines : List String) : Versions :=
  collect ((lines.filterMap (nativeVersion? platform)).filter fun v => !v.isBefore floor)

/-- Texts by code point. -/
def sorted (versions : Versions) : Versions := versions.mergeSort fun a b => !decide (b < a)

end SolcDispatch.Index
