import SolcDispatch.Broker.Basic
import SolcDispatch.Settings

/-! What the service says of itself. -/

namespace SolcDispatch.Http

def serviceName : String := "solbroker"
def serviceVersion : String := "0.1.0"

def versionReport (environment : Environment) : Json :=
  .obj [("name", .str serviceName), ("version", .str serviceVersion),
    ("environment", .str environment.name)]

structure Health where
  catalogLoaded : Bool
  directoryReady : Bool
  scripted : Nat
  native : Nat
  recent : Nat
  failed : Nat
  deriving DecidableEq, Repr

namespace Health

/-- Look after a broker; the directory of its builds is made if it is missing. -/
def ofBroker (b : Broker) : Health × Broker :=
  let (made, files) := b.cache.files.makeDirectories b.cache.root
  ({ catalogLoaded := b.known.loaded, directoryReady := made.isOk
     scripted := b.known.scripted.length, native := b.known.native.length
     recent := b.traces.recent.length, failed := b.traces.failed },
    { b with cache := { b.cache with files } })

def isGood (h : Health) : Bool := h.catalogLoaded && h.directoryReady

/-- The report of a broker's health. No times are kept: whether the catalog was ever
refreshed stands for the time at which it was. -/
def report (environment : Environment) (h : Health) : Json :=
  .obj [("status", .str (if h.isGood then "ok" else "degraded")),
    ("version", .str serviceVersion), ("environment", .str environment.name),
    ("checks", .obj [("api", .bool true), ("catalog", .bool h.catalogLoaded),
      ("artifact_dir", .bool h.directoryReady)]),
    ("catalog", .obj [("scripted", .ofNat h.scripted), ("native", .ofNat h.native),
      ("refreshed_at", .bool h.catalogLoaded)]),
    ("invocations", .obj [("recent", .ofNat h.recent), ("failed", .ofNat h.failed)])]

end Health

end SolcDispatch.Http
