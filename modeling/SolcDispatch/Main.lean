import SolcDispatch.CommandLine.Report

/-! The program that fills the cache. It takes builds from a copy of the depot on disk,
whose directory the variable `DEPOT_DIR` names, and writes them where the settings say. -/

namespace SolcDispatch.CommandLine

/-- The variables that are set, among those that are read. -/
def environment : IO (List (String × String)) :=
  Settings.names.filterMapM fun name => do return (← IO.getEnv name).map (name, ·)

/-- The content of a file, if there is such a file. -/
def contentOf? (path : String) : IO (Option Text.Bytes) := do
  try
    return some (← IO.FS.readBinFile path).toList
  catch _ => return none

def fetch (directory path : String) : IO (String × Fetched) := do
  match ← contentOf? (directory ++ path) with
  | some body => return (path, .response { body })
  | none => return (path, .response { status := 404 })

/-- The files that a command would write, of which some may be there. -/
def written (before after : Files) : List (FilePath × Text.Bytes × Nat) :=
  after.filterMap fun
    | (path, .file content mode) =>
      if (before.entry? path).isSome then none else some (path, content, mode)
    | (_, .directory) => none

/-- Run a command, again and again as long as it asks for a path or a file that has not
been looked up yet. -/
partial def settle (directory : String) (environment : List (String × String))
    (variableFile : Option String) (arguments : List String) (files : Files) (depot : Depot) :
    IO (Files × Report) := do
  let around : Surroundings Connection :=
    { depot, followsRedirections := true, loader := Loader.processes .scriptHost }
  let report := run around environment variableFile files arguments
  let unknown := report.paths.filter fun path => !Assoc.hasKey depot path
  let there ← (written files report.files).filterMapM fun (path, _, mode) => do
    return (← contentOf? path.toText).map fun content => (path, FileEntry.file content mode)
  if unknown.isEmpty && there.isEmpty then return (files, report)
  let fetched ← unknown.mapM (fetch directory)
  settle directory environment variableFile arguments (files ++ there) (Assoc.putAll depot fetched)

/-- Write a file that a command has made, with the directories on the way to it. -/
def store (path : FilePath) (content : Text.Bytes) (mode : Nat) : IO Unit := do
  IO.FS.createDirAll path.parent.toText
  IO.FS.writeBinFile path.toText (ByteArray.mk content.toArray)
  let others : IO.AccessRight := { read := mode &&& 0o4 != 0, execution := mode &&& 0o1 != 0 }
  IO.setAccessRights path.toText
    { user := { read := true, write := true, execution := mode &&& 0o100 != 0 }
      group := others, other := others }

end SolcDispatch.CommandLine

open SolcDispatch CommandLine in
def main (arguments : List String) : IO UInt32 := do
  let directory := (← IO.getEnv "DEPOT_DIR").getD "."
  let variableFile := (← contentOf? ".env").map Text.decodeUtf8
  let (files, report) ← settle directory (← environment) variableFile arguments [] []
  for (path, content, mode) in written files report.files do
    store path content mode
  IO.print report.stdout
  IO.eprint report.stderr
  match report.ending with
  | some (.ok status) => return UInt32.ofNat status
  | some (.error failure) =>
    IO.eprintln failure.message
    return 1
  | none => return 1
