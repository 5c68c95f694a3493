import SolcDispatch.Depot.Response
import SolcDispatch.Failure
import SolcDispatch.Index
import SolcDispatch.Text.Lines

/-! The catalog of known releases. A refresh reads both lists of the depot; only if
both are there does their content take the place of what was known. -/

namespace SolcDispatch

structure Snapshot where
  scripted : Index.Versions := []
  native : Index.Versions := []
  loaded : Bool := false
  deriving DecidableEq, Repr

namespace Snapshot

/-- How a known version is run; a native build is preferred. -/
def classify (s : Snapshot) (version : String) : Except Failure BuildKind :=
  match CompilerVersion.canonical? version with
  | none => .error .unknownVersion
  | some canonical =>
    if s.native.contains canonical then .ok .native
    else if s.scripted.contains canonical then .ok .scripted
    else .error .unknownVersion

def exists? (s : Snapshot) (version : String) : Bool :=
  match CompilerVersion.canonical? version with
  | none => false
  | some canonical => s.scripted.contains canonical || s.native.contains canonical

/-- All versions, each once. -/
def versions (s : Snapshot) : Index.Versions := s.native.foldl Index.insert s.scripted

/-- The newest releases that are no prereleases, newest first. -/
def releases (s : Snapshot) : List CompilerVersion :=
  CompilerVersion.sortDescending
    ((s.versions.filterMap CompilerVersion.parse?).filter CompilerVersion.isRelease)

/-- The first `count` items of a list; a negative count leaves so many out at the end. -/
def firstOf {α : Type} (count : Int) (items : List α) : List α :=
  if 0 ≤ count then items.take count.toNat else items.take (items.length - count.natAbs)

def latest (s : Snapshot) (count : Int) : List String :=
  (firstOf count s.releases).map CompilerVersion.canonical

end Snapshot

/-- Where releases are listed, and from which version on native builds are used. -/
structure ReleaseSource where
  baseUrl : String
  platform : String
  floor : CompilerVersion

namespace ReleaseSource

def indexUrl (source : ReleaseSource) (kind : BuildKind) : String :=
  Artifact.indexUrl source.baseUrl source.platform kind

end ReleaseSource

namespace Catalog

/-- The lines of a list, or why there are none. A list that never comes is neither. -/
def readFeed (url : String) : Fetched → Option (Except Failure (List String))
  | .failed reason => some (.error (.feedUnreachable url reason))
  | .response r =>
    if r.status = 200 then some (.ok (Text.lines r.text)) else some (.error (.feedRefused url r.status))
  | .silence => none

def snapshotOf (source : ReleaseSource) (scripted native : List String) : Snapshot :=
  ⟨Index.scripted scripted, Index.native source.platform source.floor native, true⟩

/-- What a refresh comes to once both lists are asked for; nothing as long as it waits.
The fault of the scripted list is told first. -/
def outcome (source : ReleaseSource) (scripted native : Fetched) :
    Option (Except Failure Snapshot) :=
  match readFeed (source.indexUrl .scripted) scripted, readFeed (source.indexUrl .native) native with
  | some (.error failure), _ => some (.error failure)
  | _, some (.error failure) => some (.error failure)
  | some (.ok scripted), some (.ok native) => some (.ok (snapshotOf source scripted native))
  | _, _ => none

/-- What is known after an attempt to refresh: a failed one changes nothing. -/
def after (source : ReleaseSource) (known : Snapshot) (scripted native : Fetched) : Snapshot :=
  match outcome source scripted native with
  | some (.ok fresh) => fresh
  | _ => known

/-- What is known after each of several attempts to refresh. -/
def afterEach (source : ReleaseSource) (known : Snapshot) : List (Fetched × Fetched) → List Snapshot
  | [] => []
  | (scripted, native) :: rest =>
    let known := after source known scripted native
    known :: afterEach source known rest

end Catalog

end SolcDispatch
