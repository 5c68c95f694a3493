import SolcDispatch.Artifact.Path
import SolcDispatch.Failure
import SolcDispatch.Text.Utf8

/-! Files and directories by path, and the writing of a file by way of a temporary
one beside it, so that no part of a file is ever seen under its own name. -/

namespace SolcDispatch

inductive FileEntry
  | directory
  | file (content : Text.Bytes) (mode : Nat)
  deriving DecidableEq, Repr

abbrev Files := List (FilePath × FileEntry)

/-- The steps in which a file is written, each of which the file system may refuse. Names for
the temporary file are tried in turn; writing may break off after any number of bytes. -/
inductive WriteStep
  | makeDirectory (directory : FilePath)
  | createTemporary (attempt : Nat)
  | writeContent (written : Nat)
  | setMode
  | rename
  deriving DecidableEq, Repr

namespace Files

/-- What stands under a path; the empty path is a directory. -/
def entry? (files : Files) (path : FilePath) : Option FileEntry :=
  if path.parts.isEmpty then some .directory
  else (files.find? fun e => decide (e.1 = path)).map Prod.snd

def maxName : Nat := 255

def isTooLong (name : String) : Bool := maxName < name.utf8ByteSize

def maxPath : Nat := 4095

/-- Whether a path is too long to be looked up, as a whole or in one of its names. -/
def isOverlong (path : FilePath) : Bool :=
  maxPath < path.toText.utf8ByteSize || path.parts.any isTooLong

/-- Whether something stands under a path. A path that is too long is refused. -/
def present (files : Files) (path : FilePath) : Except Failure Bool :=
  if isOverlong path then .error .internal
  else .ok (files.entry? path).isSome

def remove (files : Files) (path : FilePath) : Files := files.filter fun e => !decide (e.1 = path)

def put (files : Files) (path : FilePath) (entry : FileEntry) : Files :=
  files.remove path ++ [(path, entry)]

/-- The path and every directory above it, the topmost first. -/
def ancestry (path : FilePath) : List FilePath :=
  (List.range path.parts.length).map fun n => { path with parts := path.parts.take (n + 1) }

/-- Make the directories that are missing on the way to a path. A file on the way is
an error; the directories made before it stay. -/
def makeDirectories (files : Files) (path : FilePath)
    (refused : FilePath → Bool := fun _ => false) : Except Failure Unit × Files :=
  (ancestry path).foldl (fun (done, files) directory =>
    match done with
    | .error failure => (.error failure, files)
    | .ok _ => match entry? files directory with
      | some .directory => (.ok (), files)
      | some (.file ..) => (.error .internal, files)
      | none =>
        if refused directory || isTooLong directory.fileName then (.error .internal, files)
        else (.ok (), put files directory .directory))
    (.ok (), files)

/-- The mode of a temporary file, which its owner alone may read and write. -/
def temporaryMode : Nat := 0o600

end Files

/-- Operations on files, which fail or go on; what was done before a failure stays. -/
abbrev FileRun := ExceptT Failure (StateM Files)

namespace FileRun

/-- How many names are tried for a temporary file. -/
def maxAttempts : Nat := 10000

/-- The path of a temporary file: beside the file, with eight digits after its name. -/
def temporaryPath (path : FilePath) (attempt : Nat) : FilePath :=
  let token := String.ofList (Nat.toDigits 10 (10000000 + attempt))
  { path with parts := path.parts.dropLast ++ ["." ++ path.fileName ++ "." ++ token ++ ".tmp"] }

/-- Create an empty temporary file beside a path, under the first name that is free. -/
def createTemporary (refused : WriteStep → Bool) (path : FilePath) (attempt : Nat) :
    (attempts : Nat) → FileRun FilePath
  | 0 => throw .internal
  | attempts + 1 => fun files =>
    let temporary := temporaryPath path attempt
    if refused (.createTemporary attempt) || Files.isTooLong temporary.fileName then
      (.error .internal, files)
    else if (files.entry? temporary).isSome then
      createTemporary refused path (attempt + 1) attempts files
    else (.ok temporary, files.put temporary (.file [] Files.temporaryMode))

/-- How many bytes are written before writing breaks off. -/
def breaksOffAt? (refused : WriteStep → Bool) (written : Nat) : Text.Bytes → Option Nat
  | [] => if refused (.writeContent written) then some written else none
  | _ :: rest =>
    if refused (.writeContent written) then some written
    else breaksOffAt? refused (written + 1) rest

def writeContent (refused : WriteStep → Bool) (path : FilePath) (content : Text.Bytes) :
    FileRun Unit := fun files =>
  match files.entry? path with
  | some (.file _ mode) =>
    match breaksOffAt? refused 0 content with
    | some written => (.error .internal, files.put path (.file (content.take written) mode))
    | none => (.ok (), files.put path (.file content mode))
  | _ => (.error .internal, files)

def setMode (refused : WriteStep → Bool) (path : FilePath) (mode : Nat) : FileRun Unit :=
  fun files =>
    match files.entry? path with
    | some (.file content _) =>
      if refused .setMode then (.error .internal, files)
      else (.ok (), files.put path (.file content mode))
    | _ => (.error .internal, files)

/-- Give a file another name, under which no directory may stand. -/
def rename (refused : WriteStep → Bool) (source target : FilePath) : FileRun Unit := fun files =>
  match files.entry? source with
  | some entry =>
    if refused .rename || files.entry? target = some .directory then (.error .internal, files)
    else (.ok (), (files.remove source).put target entry)
  | none => (.error .internal, files)

/-- Run operations on a temporary file, which is removed if one of them fails. -/
def orRemove (temporary : FilePath) (run : FileRun Unit) : FileRun Unit := fun files =>
  match run files with
  | (.ok _, files) => (.ok (), files)
  | (.error failure, files) => (.error failure, files.remove temporary)

/-- Put a complete file in its place, with the given mode or the temporary file's. -/
def persist (refused : WriteStep → Bool) (path : FilePath) (content : Text.Bytes)
    (mode : Option Nat) : FileRun Unit := do
  fun files => files.makeDirectories path.parent fun directory => refused (.makeDirectory directory)
  let temporary ← createTemporary refused path 0 maxAttempts
  orRemove temporary do
    writeContent refused temporary content
    mode.forM (setMode refused temporary)
    rename refused temporary path

end FileRun

namespace Files

/-- Persist a file, and the files after it. -/
def write (refused : WriteStep → Bool) (files : Files) (path : FilePath) (content : Text.Bytes)
    (mode : Option Nat) : Except Failure Unit × Files :=
  FileRun.persist refused path content mode files

/-- What stands directly in a directory, by name. -/
def list (files : Files) (directory : FilePath) : List (String × FileEntry) :=
  (files.filter fun e => e.1.parent = directory && !e.1.parts.isEmpty).map
    fun e => (e.1.fileName, e.2)

def place (files : Files) (path : FilePath) (content : Text.Bytes) (mode : Nat) : Files :=
  (files.makeDirectories path.parent).2.put path (.file content mode)

end Files

end SolcDispatch
