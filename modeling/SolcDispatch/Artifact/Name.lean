import SolcDispatch.Text.Blank
import SolcDispatch.Version.Basic

/-! Names of compiler builds: what a build is called in the depot and on disk, and
where it is fetched from. -/

namespace SolcDispatch

/-- How a build is run: as an executable of its platform, or inside an interpreter. -/
inductive BuildKind
  | native
  | scripted
  deriving DecidableEq, Repr

def BuildKind.name : BuildKind → String
  | .native => "native"
  | .scripted => "scripted"

namespace Artifact

def scriptedStart : String := "soljson-"
def scriptedEnd : String := ".js"
def nativeStart (platform : String) : String := s!"solc-{platform}-"

/-- The name of the build of a version with the given canonical spelling. -/
def nameOf (platform : String) (kind : BuildKind) (canonical : String) : String :=
  match kind with
  | .native => nativeStart platform ++ canonical
  | .scripted => scriptedStart ++ canonical ++ scriptedEnd

def name (platform : String) (kind : BuildKind) (version : String) :
    Except VersionError String :=
  (CompilerVersion.parse version).map fun v => nameOf platform kind v.canonical

def directoryUrl (baseUrl platform : String) : BuildKind → String
  | .native => s!"{Text.stripSlashes baseUrl}/{platform}/"
  | .scripted => s!"{Text.stripSlashes baseUrl}/bin/"

def indexUrl (baseUrl platform : String) (kind : BuildKind) : String :=
  directoryUrl baseUrl platform kind ++ "list.txt"

def downloadUrl (baseUrl platform : String) (kind : BuildKind) (name : String) : String :=
  directoryUrl baseUrl platform kind ++ name

end Artifact

end SolcDispatch
