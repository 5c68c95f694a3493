import SolcDispatch.Cache.Basic
import SolcDispatch.Depot.Basic
import SolcDispatch.Interpreter.Loader
import SolcDispatch.Native
import SolcDispatch.Scripted
import SolcDispatch.Trace

/-! The broker's state and its surroundings, and how the catalog and the cache of a
broker use the depot. -/

namespace SolcDispatch

structure Broker where
  known : Snapshot := {}
  cache : Cache
  traces : TraceRing
  timeout : Binary64

structure Surroundings (σ : Type) where
  depot : Depot
  followsRedirections : Bool
  loader : Loader σ
  refused : WriteStep → Bool := fun _ => false

namespace Broker

variable {σ : Type}

/-- Refresh the catalog. Both lists are requested, the scripted one first. Besides the
outcome, which is missing as long as the depot is silent, the paths requested. -/
def refresh (around : Surroundings σ) (b : Broker) :
    Option (Except Failure Snapshot) × List String × Broker :=
  let source := b.cache.source
  let (scripted, first) := around.depot.get around.followsRedirections (source.indexUrl .scripted)
  let (native, second) := around.depot.get around.followsRedirections (source.indexUrl .native)
  (Catalog.outcome source scripted native, first ++ second,
    { b with known := Catalog.after source b.known scripted native })

/-- Run a download that is under way to its end, and forget it. -/
def download (around : Surroundings σ) (cache : Cache) (n : Nat) : List String × Cache :=
  match cache.downloads[n]? with
  | none => ([], cache)
  | some d =>
    if d.isRunning then
      let (fetched, paths) := around.depot.get around.followsRedirections (cache.urlOf d)
      let cache := cache.complete around.refused n fetched
      (paths, if (cache.downloads[n]?).any Download.isRunning then cache else cache.forget d.name)
    else ([], cache)

/-- Run all downloads that are under way, in the order in which they began. -/
def downloadAll (around : Surroundings σ) (cache : Cache) : List String × Cache :=
  (List.range cache.downloads.length).foldl (fun (paths, cache) n =>
    let (more, cache) := download around cache n
    (paths ++ more, cache)) ([], cache)

/-- Ask for a build and wait for it; there is no answer as long as the depot is silent. -/
def acquire (around : Surroundings σ) (b : Broker) (version : String) :
    Option (Except Failure FilePath) × List String × Broker :=
  let (ticket, cache) := b.cache.request b.known version
  let (paths, cache) := downloadAll around cache
  (cache.answer? ticket, paths, { b with cache })

def requestAll (cache : Cache) (known : Snapshot) : List String → List Ticket × Cache
  | [] => ([], cache)
  | version :: rest =>
    let (ticket, cache) := cache.request known version
    let (tickets, cache) := requestAll cache known rest
    (ticket :: tickets, cache)

/-- Ask for several builds at the same time and wait for all. -/
def acquireAll (around : Surroundings σ) (b : Broker) (versions : List String) :
    List (Option (Except Failure FilePath)) × List String × Broker :=
  let (tickets, cache) := requestAll b.cache b.known versions
  let (paths, cache) := downloadAll around cache
  (tickets.map cache.answer?, paths, { b with cache })

end Broker

end SolcDispatch
