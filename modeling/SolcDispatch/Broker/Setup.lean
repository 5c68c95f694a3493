import SolcDispatch.Broker.Basic
import SolcDispatch.Settings

/-! The cache and the broker that settings describe. -/

namespace SolcDispatch

namespace Settings

/-- Where releases are listed; the floor must be a version. -/
def releaseSource (s : Settings) : Except Failure ReleaseSource :=
  ((CompilerVersion.parse s.nativeFloor).mapError .badVersion).map fun floor =>
    { baseUrl := s.baseUrl, platform := s.nativePlatform, floor }

def cache (s : Settings) (files : Files) : Except Failure Cache :=
  s.releaseSource.map fun source => { root := FilePath.ofString s.artifactDir, source, files }

def broker (s : Settings) (files : Files) : Except Failure Broker := do
  let cache ← s.cache files
  let traces ← TraceRing.ofCapacity s.traceCapacity
  return { cache, traces, timeout := s.invocationTimeoutSeconds }

/-- A broker that compiles nothing and so keeps no traces. -/
def storekeeper (s : Settings) (files : Files) : Except Failure Broker :=
  (s.cache files).map fun cache =>
    { cache, traces := { capacity := 0 }, timeout := s.invocationTimeoutSeconds }

end Settings

end SolcDispatch
