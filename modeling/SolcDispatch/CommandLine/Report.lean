import SolcDispatch.Broker.Setup
import SolcDispatch.Broker.Warm
import SolcDispatch.CommandLine.Arguments

/-! The command that fills the cache: what it prints, how it ends, and the files after
it. -/

namespace SolcDispatch.CommandLine

/-- What a command has printed, how it ended, the paths it requested from the depot and
the files after it. It has no end as long as the depot is silent. -/
structure Report where
  stdout : String := ""
  stderr : String := ""
  ending : Option (Except Failure Nat)
  paths : List String := []
  files : Files

def usage : String := "usage: warm_cache [-h] [--latest LATEST] [versions ...]\n"

def helpText : String :=
  usage ++ "\nDownload compiler builds into the solbroker artifact cache\n" ++
    "\npositional arguments:\n" ++
    "  versions         Compiler versions, e.g. v0.8.20+commit.a1b79de6\n" ++
    "\noptions:\n" ++
    "  -h, --help       show this help message and exit\n" ++
    "  --latest LATEST  Also warm the N newest releases\n"

/-- The exit status of a command line that is not understood. -/
def usageStatus : Nat := 2

def ofUsageError (error : UsageError) (files : Files) : Report :=
  { stderr := usage ++ s!"warm_cache: error: {error.message}\n"
    ending := some (.ok usageStatus), files }

/-- The versions to get: those asked for, then the newest releases that are not among
them. -/
def wanted (known : Snapshot) (wishes : Wishes) : List String :=
  if wishes.latest = 0 then wishes.versions
  else wishes.versions ++ (known.latest wishes.latest).filter fun v => !wishes.versions.contains v

def versionWidth : Nat := 45

/-- A text with spaces after it, up to the given width. -/
def padded (width : Nat) (text : String) : String :=
  text ++ String.ofList (List.replicate (width - text.length) ' ')

def catalogLine (known : Snapshot) : String :=
  s!"Catalog: {known.scripted.length} scripted, {known.native.length} native releases\n"

def warmedLine (entry : String × String) : String := s!"  {padded versionWidth entry.1} {entry.2}\n"

/-- The exit status after warming: one if a build could not be had. -/
def statusOf (warmed : Warmed) : Nat := if warmed.any fun e => Warmed.isError e.2 then 1 else 0

/-- Refresh the catalog and get what is wished for. -/
def warm {σ : Type} (around : Surroundings σ) (b : Broker) (wishes : Wishes) : Report :=
  let (refreshed, paths, b) := b.refresh around
  match refreshed with
  | none => { ending := none, paths, files := b.cache.files }
  | some (.error failure) => { ending := some (.error failure), paths, files := b.cache.files }
  | some (.ok known) =>
    let stdout := catalogLine known
    match wanted known wishes with
    | [] =>
      { stdout := stdout ++ "Nothing to warm.\n", ending := some (.ok 0), paths
        files := b.cache.files }
    | versions =>
      let (warmed, more, b) := b.warm around versions
      let report := { stdout, ending := none, paths := paths ++ more, files := b.cache.files : Report }
      match warmed with
      | none => report
      | some (.error failure) => { report with ending := some (.error failure) }
      | some (.ok warmed) =>
        { report with
          stdout := stdout ++ String.join (warmed.map warmedLine)
          ending := some (.ok (statusOf warmed)) }

/-- Run a command with the given variables over files and a depot. Settings that cannot
be read are an unforeseen failure. -/
def run {σ : Type} (around : Surroundings σ) (environment : List (String × String))
    (variableFile : Option String) (files : Files) (arguments : List String) : Report :=
  match read arguments with
  | .error error => ofUsageError error files
  | .ok .help => { stdout := helpText, ending := some (.ok 0), files }
  | .ok (.warm wishes) =>
    match Settings.load environment variableFile with
    | .error _ => { ending := some (.error .internal), files }
    | .ok settings =>
      match settings.storekeeper files with
      | .error failure => { ending := some (.error failure), files }
      | .ok b => warm around b wishes

end SolcDispatch.CommandLine
