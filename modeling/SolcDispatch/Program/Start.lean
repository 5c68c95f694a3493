import SolcDispatch.Files
import SolcDispatch.Shell.Run
import SolcDispatch.Text.Quoted

/-! Starting the program in a file. -/

namespace SolcDispatch

inductive StartFault
  | missing
  | notPermitted
  | notExecutable
  deriving DecidableEq, Repr

def StartFault.text : StartFault → String
  | .missing => "[Errno 2] No such file or directory"
  | .notPermitted => "[Errno 13] Permission denied"
  | .notExecutable => "[Errno 8] Exec format error"

def StartFault.message (fault : StartFault) (path : String) : String :=
  s!"{fault.text}: {Text.quoted path}"

namespace Program

/-- The interpreter that a script's first line names, if it names one. -/
def interpreterLine? (content : Text.Bytes) : Option (List Char) :=
  match Shell.charsOf content with
  | '#' :: '!' :: rest =>
    let isBlank := fun c => c == ' ' || c == '\t'
    match (rest.takeWhile (· != '\n')).dropWhile isBlank with
    | [] => none
    | line => some ((line.reverse.dropWhile isBlank).reverse)
  | _ => none

/-- The interpreters that are there. -/
def shells : List (List Char) :=
  ["/bin/sh", "/usr/bin/sh", "/bin/bash", "/usr/bin/bash", "/bin/dash", "/usr/bin/env sh",
    "/usr/bin/env bash"].map String.toList

def executableBits : Nat := 0o111

/-- The program in a file: a script with the name of its interpreter in front. -/
def ofFile (files : Files) (path : FilePath) (arguments : List String) :
    Except StartFault Program :=
  match files.entry? path with
  | none => .error .missing
  | some .directory => .error .notPermitted
  | some (.file content mode) =>
    if mode &&& executableBits = 0 then .error .notPermitted
    else match interpreterLine? content with
      | none => .error .notExecutable
      | some line =>
        if shells.contains line then .ok (Shell.program content path.toText arguments)
        else .error .missing

end Program

end SolcDispatch
