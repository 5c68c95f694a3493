import SolcDispatch.Version.Basic

/-! The order of releases: numbers first, then a prerelease before its release,
then prereleases as texts. Builds do not count. -/

namespace SolcDispatch.CompilerVersion

/-- Where a version stands relative to another one. -/
def order (a b : CompilerVersion) : Ordering :=
  (compare a.major b.major).then <| (compare a.minor b.minor).then <|
    (compare a.patch b.patch).then <|
      (compare a.prerelease.isNone b.prerelease.isNone).then <|
        compare (a.prerelease.getD "") (b.prerelease.getD "")

def isBefore (a b : CompilerVersion) : Bool := order a b == .lt

def isAtMost (a b : CompilerVersion) : Bool := order a b != .gt

def isAfter (a b : CompilerVersion) : Bool := order a b == .gt

def isAtLeast (a b : CompilerVersion) : Bool := order a b != .lt

/-- Newest first; equal versions stay in their order. -/
def sortDescending (versions : List CompilerVersion) : List CompilerVersion :=
  versions.mergeSort isAtLeast

def isRelease (v : CompilerVersion) : Bool := v.prerelease.getD "" = ""

end SolcDispatch.CompilerVersion
