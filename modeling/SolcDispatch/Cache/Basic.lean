import SolcDispatch.Artifact.Directive
import SolcDispatch.Assoc
import SolcDispatch.Catalog
import SolcDispatch.Files

/-! The cache of builds. A build is downloaded when it is first asked for; whoever asks
for it meanwhile waits for the same download. Downloads are numbered by their place
in the list of all of them, finished ones included. -/

namespace SolcDispatch

/-- A download, under way as long as it has no outcome. -/
structure Download where
  version : String
  kind : BuildKind
  path : FilePath
  outcome : Option (Except Failure FilePath) := none

namespace Download

def isRunning (d : Download) : Bool := d.outcome.isNone

def name (d : Download) : String := d.path.fileName

end Download

structure Cache where
  root : FilePath
  source : ReleaseSource
  files : Files := []
  downloads : List Download := []
  inFlight : List (String × Nat) := []

/-- What one who asks for a build gets at once: an answer, or a download to wait for. -/
inductive Ticket
  | ready (answer : Except Failure FilePath)
  | waiting (download : Nat)

namespace Cache

def executableMode : Nat := 0o755

def pathOf (cache : Cache) (kind : BuildKind) (version : String) : Except VersionError FilePath :=
  (Artifact.name cache.source.platform kind version).map cache.root.child

def urlOf (cache : Cache) (d : Download) : String :=
  match Artifact.name cache.source.platform d.kind d.version with
  | .ok name => Artifact.downloadUrl cache.source.baseUrl cache.source.platform d.kind name
  | .error _ => ""

/-- Join the download of a build, or start it. -/
def join (cache : Cache) (version : String) (kind : BuildKind) (path : FilePath) :
    Ticket × Cache :=
  match Assoc.get? cache.inFlight path.fileName with
  | some n => (.waiting n, cache)
  | none =>
    let n := cache.downloads.length
    (.waiting n, { cache with
      downloads := cache.downloads ++ [{ version, kind, path }]
      inFlight := Assoc.put cache.inFlight path.fileName n })

def request (cache : Cache) (known : Snapshot) (version : String) : Ticket × Cache :=
  match known.classify version with
  | .error failure => (.ready (.error failure), cache)
  | .ok kind =>
    match cache.pathOf kind version with
    | .error error => (.ready (.error (.badVersion error)), cache)
    | .ok path =>
      match cache.files.present path with
      | .error failure => (.ready (.error failure), cache)
      | .ok true => (.ready (.ok path), cache)
      | .ok false => cache.join version kind path

/-- What is kept of a build, and the mode of its file. -/
def kept (kind : BuildKind) (r : Response) : Text.Bytes × Option Nat :=
  match kind with
  | .scripted => (Text.utf8 (Artifact.keptSource r.text), none)
  | .native => (r.body, some executableMode)

/-- What a download comes to, and the files after it. A download whose response never
comes has no outcome. -/
def result (refused : WriteStep → Bool) (files : Files) (d : Download) (fetched : Fetched) :
    Option (Except Failure FilePath) × Files :=
  match fetched with
  | .silence => (none, files)
  | .failed reason => (some (.error (.downloadUnreachable d.version reason)), files)
  | .response r =>
    if r.status = 200 then
      let (content, mode) := kept d.kind r
      let (written, files) := files.write refused d.path content mode
      (some (written.map fun _ => d.path), files)
    else (some (.error (.downloadRefused d.version r.status (Response.phrase r.status))), files)

def complete (cache : Cache) (refused : WriteStep → Bool) (n : Nat) (fetched : Fetched) : Cache :=
  match cache.downloads[n]? with
  | none => cache
  | some d =>
    if d.isRunning then
      let (outcome, files) := result refused cache.files d fetched
      { cache with files, downloads := cache.downloads.set n { d with outcome } }
    else cache

def forget (cache : Cache) (name : String) : Cache :=
  { cache with inFlight := Assoc.without cache.inFlight [name] }

/-- The answer to a ticket, once there is one. -/
def answer? (cache : Cache) : Ticket → Option (Except Failure FilePath)
  | .ready answer => some answer
  | .waiting n => (cache.downloads[n]?).bind Download.outcome

end Cache

end SolcDispatch
