import SolcDispatch.Broker.Setup
import SolcDispatch.Proofs.Broker.Admission
import SolcDispatch.Proofs.Cache.Tickets

/-! A broker that many requests use at the same time, step by step. Between two steps of a
request anything may happen: the catalog is refreshed, downloads end, other requests come and
go. A request is admitted and asks for its build in one step, since a broker waits for nothing
in between. -/

namespace SolcDispatch

/-- A request as it came, and what the catalog knew then. -/
structure Arrival where
  version : String
  input : Json
  known : Snapshot

/-- A build as it was started: its path, and the files of that moment. -/
structure Launch where
  files : Files
  path : FilePath

/-- An admitted request: its ticket, its trace as far as it is written, what was started for it
and the convention of the build that an interpreter has loaded. -/
structure Job where
  arrival : Arrival
  admitted : Admitted
  ticket : Ticket
  trace : Trace
  launch : Option Launch := none
  loaded : Option Capability := none

/-- A request that has come to its end, with the calls that were made for it. -/
inductive Ended
  | rejected (arrival : Arrival) (failure : Failure)
  | concluded (job : Job) (ending : Ending) (calls : List Call)

/-- A broker with the requests under way and those that have come to their end, in the order
in which they ended. -/
structure Traffic where
  broker : Broker
  underWay : List Job := []
  ended : List Ended := []

theorem Invocation.calls_ofNative {τ : Type} [TextLike τ] (files : Files) (path : FilePath)
    (document : StandardInput τ) (trace : Trace) :
    (ofNative files path document trace).calls = [] := by
  unfold ofNative
  split
  · rfl
  · dsimp only
    split <;> rfl

namespace Job

variable {σ : Type} (loader : Loader σ)

def run (job : Job) (l : Launch) : Invocation :=
  Invocation.run loader l.files job.admitted.kind l.path job.admitted.document job.trace

/-- The convention of the build that an interpreter loads; a native build needs none. -/
def loads (job : Job) (l : Launch) : Option Capability :=
  match job.admitted.kind with
  | .native => none
  | .scripted => (loader.load l.files l.path).toOption.map Prod.fst

/-- All calls that a job makes if it is not given up before. -/
def calls (job : Job) : List Call :=
  match job.launch with
  | none => []
  | some l => (job.run loader l).calls

/-- The trace of a job that is given up. What a build has said is known once it is loaded. -/
def traceWith (job : Job) (diagnostics : String) : Trace :=
  if job.loaded.isSome then { job.trace with stderr := diagnostics } else job.trace

/-- How a job may end in a broker, with its trace and the calls that it has made. It may be
given up at any time, and its run may last longer than the time limit. -/
inductive Ends (b : Broker) (job : Job) : Ending → Trace → List Call → Prop
  | refused {failure : Failure} (hwait : job.launch = none)
      (ha : b.cache.answer? job.ticket = some (.error failure)) :
      Ends b job (.finished (.error failure)) job.trace []
  | ran {l : Launch} {result : Except Failure Json} (hl : job.launch = some l)
      (hloaded : job.loaded = job.loads loader l)
      (hrun : (job.run loader l).outcome = result.mapError .failed) :
      Ends b job (.finished result) (job.run loader l).trace (job.run loader l).calls
  | expired {made : List Call} (diagnostics : String) (hl : job.launch.isSome)
      (hmade : made <+: job.calls loader) :
      Ends b job (.finished (.error (.timedOut b.timeout))) (job.traceWith diagnostics) made
  | cancelled {made : List Call} (diagnostics : String) (hmade : made <+: job.calls loader) :
      Ends b job .cancelled (job.traceWith diagnostics) made

end Job

namespace Traffic

def withCache (s : Traffic) (cache : Cache) : Traffic :=
  { s with broker := { s.broker with cache } }

def withKnown (s : Traffic) (known : Snapshot) : Traffic :=
  { s with broker := { s.broker with known } }

def withJob (s : Traffic) (n : Nat) (job : Job) : Traffic :=
  { s with underWay := s.underWay.set n job }

def accept (s : Traffic) (version : String) (input : Json) (a : Admitted) : Traffic :=
  let (ticket, cache) := s.broker.cache.request s.broker.known a.version
  let trace : Trace := { version := a.version, protocol := a.kind.name }
  { s.withCache cache with
    underWay := s.underWay ++ [⟨⟨version, input, s.broker.known⟩, a, ticket, trace, none, none⟩] }

/-- One step of a broker. A program may leave files behind as long as it runs, and the run of a
scripted build does not end before its build is loaded, if it can be. -/
inductive Step {σ : Type} (loader : Loader σ) : Traffic → Traffic → Prop
  | refresh (s : Traffic) (scripted native : Fetched) :
      Step loader s (s.withKnown
        (Catalog.after s.broker.cache.source s.broker.known scripted native))
  | reject {s : Traffic} {version : String} {input : Json} {failure : Failure}
      (h : s.broker.admission version input = .error failure) :
      Step loader s
        { s with ended := s.ended ++ [.rejected ⟨version, input, s.broker.known⟩ failure] }
  | accept {s : Traffic} {version : String} {input : Json} {a : Admitted}
      (h : s.broker.admission version input = .ok a) : Step loader s (s.accept version input a)
  | complete (s : Traffic) (n : Nat) (refused : WriteStep → Bool) (fetched : Fetched) :
      Step loader s (s.withCache (s.broker.cache.complete refused n fetched))
  | forget {s : Traffic} {n : Nat} {d : Download} (hd : s.broker.cache.downloads[n]? = some d)
      (hend : ¬ d.isRunning) (hin : Assoc.get? s.broker.cache.inFlight d.name = some n) :
      Step loader s (s.withCache (s.broker.cache.forget d.name))
  | launch {s : Traffic} {n : Nat} {job : Job} {path : FilePath} (hjob : s.underWay[n]? = some job)
      (hwait : job.launch = none) (ha : s.broker.cache.answer? job.ticket = some (.ok path)) :
      Step loader s
        (s.withJob n { job with launch := some ⟨s.broker.cache.files, path⟩ })
  | load {s : Traffic} {n : Nat} {job : Job} {l : Launch} {capability : Capability}
      (hjob : s.underWay[n]? = some job) (hl : job.launch = some l)
      (hload : job.loads loader l = some capability) :
      Step loader s (s.withJob n { job with
        loaded := some capability
        trace := { job.trace with protocol := Invocation.protocolOf capability } })
  | write {s : Traffic} {job : Job} (hjob : job ∈ s.underWay) (hl : job.launch.isSome)
      (written : List (String × Text.Bytes)) :
      Step loader s { s with broker := s.broker.keepFiles written }
  | conclude {s : Traffic} {n : Nat} {job : Job} {ending : Ending} {trace : Trace}
      {made : List Call} (hjob : s.underWay[n]? = some job)
      (h : job.Ends loader s.broker ending trace made) :
      Step loader s ⟨s.broker.recordTrace trace ending, s.underWay.eraseIdx n,
        s.ended ++ [.concluded job ending made]⟩

abbrev Reaches {σ : Type} (loader : Loader σ) : Traffic → Traffic → Prop :=
  Relation.ReflTransGen (Step loader)

end Traffic

def Ended.concluded? : Ended → Option (Job × Ending)
  | .rejected .. => none
  | .concluded job ending _ => some (job, ending)

/-- The admitted requests that have ended, the first one first. -/
def Traffic.concluded (s : Traffic) : List (Job × Ending) := s.ended.filterMap Ended.concluded?

/-- A broker that has not been used yet. -/
structure Broker.IsFresh (b : Broker) : Prop where
  known : b.known = {}
  downloads : b.cache.downloads = []
  inFlight : b.cache.inFlight = []
  recent : b.traces.recent = []

theorem Settings.isFresh_broker {settings : Settings} {files : Files} {b : Broker}
    (h : settings.broker files = .ok b) :
    b.IsFresh ∧ (b.traces.capacity : Int) = settings.traceCapacity := by
  unfold Settings.broker Settings.cache TraceRing.ofCapacity at h
  cases hsource : settings.releaseSource with
  | error failure =>
    rw [hsource] at h
    cases h
  | ok source =>
    rw [hsource] at h
    by_cases hsize : settings.traceCapacity < 0
    · rw [if_pos hsize] at h
      cases h
    · rw [if_neg hsize] at h
      cases h
      exact ⟨⟨rfl, rfl, rfl, rfl⟩, Int.toNat_of_nonneg (Int.not_lt.mp hsize)⟩

namespace Job

/-- The protocol of a trace: that of its kind, until an interpreter has loaded the build. -/
def protocol (job : Job) : String :=
  match job.loaded with
  | none => job.admitted.kind.name
  | some capability => Invocation.protocolOf capability

/-- What is certain of a job at any time. Its kind is the one by which the catalog classified
its version when it came, and its ticket and what was started for it are those of a build of
that kind. -/
structure Sound {σ : Type} (loader : Loader σ) (cache : Cache) (job : Job) : Prop where
  version : job.admitted.version = job.arrival.version
  kind : job.arrival.known.classify job.arrival.version = .ok job.admitted.kind
  read : ∃ document, StandardInput.parse job.arrival.input = .ok document ∧
    job.admitted.document = document.withoutModelChecker
  floored : Catalog.IsFloored cache.source.floor job.arrival.known
  build : ∃ asked, cache.pathOf job.admitted.kind job.arrival.version = .ok asked ∧
    cache.Leads asked job.ticket ∧ ∀ l, job.launch = some l → cache.IsAt asked l.path
  loaded : ∀ capability, job.loaded = some capability →
    ∃ l, job.launch = some l ∧ job.loads loader l = some capability
  traced : job.trace.version = job.arrival.version ∧ job.trace.protocol = job.protocol

end Job

/-- A rejected request is for a version that the catalog does not know, or its input cannot be
read. -/
def Arrival.Rejects (arrival : Arrival) (failure : Failure) : Prop :=
  arrival.known.exists? arrival.version = false ∧ failure = .unknownVersion ∨
    arrival.known.exists? arrival.version ∧ ∃ violations,
      StandardInput.parse arrival.input = .error violations ∧ failure = .invalidInput violations

def Ended.Sound {σ : Type} (loader : Loader σ) (cache : Cache) : Ended → Prop
  | .rejected arrival failure => arrival.Rejects failure
  | .concluded job _ made => job.Sound loader cache ∧ made <+: job.calls loader

variable {σ : Type} {loader : Loader σ} {cache other : Cache} {job : Job}

namespace Job

theorem calls_of_launch {l : Launch} (h : job.launch = some l) :
    job.calls loader = (job.run loader l).calls := by
  rw [calls, h]

theorem calls_eq_nil_of_native (h : job.admitted.kind = .native) : job.calls loader = [] := by
  unfold calls
  split
  · rfl
  · rw [run, h]
    exact Invocation.calls_ofNative _ _ _ _

theorem Ends.made_prefix {b : Broker} {ending : Ending} {trace : Trace} {made : List Call}
    (h : job.Ends loader b ending trace made) : made <+: job.calls loader := by
  cases h with
  | refused => exact List.nil_prefix
  | ran hl hloaded hrun => exact (calls_of_launch hl).symm ▸ List.prefix_rfl
  | expired diagnostics hl hmade => exact hmade
  | cancelled diagnostics hmade => exact hmade

theorem Sound.mono (h : job.Sound loader cache) (hg : cache.Grows other) :
    job.Sound loader other := by
  obtain ⟨asked, hasked, hleads, hlaunch⟩ := h.build
  exact { h with
    floored := hg.source ▸ h.floored
    build := ⟨asked, (hg.pathOf_eq _ _).trans hasked, hleads.mono hg,
      fun l hl => (hlaunch l hl).mono hg⟩ }

theorem Sound.launch (h : job.Sound loader cache) (hc : cache.Orderly) (hwait : job.launch = none)
    {path : FilePath} (ha : cache.answer? job.ticket = some (.ok path)) (files : Files) :
    Sound loader cache { job with launch := some ⟨files, path⟩ } := by
  obtain ⟨asked, hasked, hleads, -⟩ := h.build
  refine { h with build := ⟨asked, hasked, hleads, ?_⟩, loaded := ?_ }
  · rintro _ ⟨⟩
    exact hc.isAt_of_answer hasked hleads ha
  · intro capability hloaded
    obtain ⟨l, hl, -⟩ := h.loaded capability hloaded
    rw [hwait] at hl
    cases hl

theorem Sound.load (h : job.Sound loader cache) {l : Launch} (hl : job.launch = some l)
    {capability : Capability} (hload : job.loads loader l = some capability) :
    Sound loader cache { job with
      loaded := some capability
      trace := { job.trace with protocol := Invocation.protocolOf capability } } := by
  refine { h with loaded := ?_, traced := ⟨h.traced.1, rfl⟩ }
  rintro _ ⟨⟩
  exact ⟨l, hl, hload⟩

/-- A native build is never loaded, so that its protocol is that of its kind. -/
theorem Sound.loaded_of_native (h : job.Sound loader cache)
    (hkind : job.admitted.kind = .native) : job.loaded = none := by
  cases hloaded : job.loaded with
  | none => rfl
  | some capability =>
    obtain ⟨l, -, hl⟩ := h.loaded capability hloaded
    rw [loads, hkind] at hl
    cases hl

end Job

theorem Ended.Sound.mono {e : Ended} (h : e.Sound loader cache) (hg : cache.Grows other) :
    e.Sound loader other := by
  cases e with
  | rejected arrival failure => exact h
  | concluded job ending made => exact ⟨h.1.mono hg, h.2⟩

namespace Traffic

variable {s t : Traffic}

theorem accept_eq {version : String} {a : Admitted} {ticket : Ticket}
    (h : s.broker.cache.request s.broker.known a.version = (ticket, cache)) (input : Json) :
    s.accept version input a = ⟨{ s.broker with cache },
      s.underWay ++ [⟨⟨version, input, s.broker.known⟩, a, ticket,
        { version := a.version, protocol := a.kind.name }, none, none⟩], s.ended⟩ := by
  unfold accept
  rw [h]
  rfl

structure Invariant (loader : Loader σ) (s : Traffic) : Prop where
  cache : s.broker.cache.Orderly
  floored : Catalog.IsFloored s.broker.cache.source.floor s.broker.known
  underWay : ∀ job ∈ s.underWay, job.Sound loader s.broker.cache
  ended : ∀ e ∈ s.ended, e.Sound loader s.broker.cache

theorem Invariant.of_fresh {b : Broker} (h : b.IsFresh) : Invariant loader { broker := b } where
  cache := .of_empty h.downloads h.inFlight
  floored := h.known ▸ Catalog.isFloored_empty _
  underWay _ hjob := by cases hjob
  ended _ he := by cases he

theorem Invariant.of_grows (h : Invariant loader s) (hcache : t.broker.cache.Orderly)
    (hg : s.broker.cache.Grows t.broker.cache)
    (hfloored : Catalog.IsFloored s.broker.cache.source.floor t.broker.known)
    (hunderWay : ∀ job ∈ t.underWay, job ∈ s.underWay ∨ job.Sound loader t.broker.cache)
    (hended : ∀ e ∈ t.ended, e ∈ s.ended ∨ e.Sound loader t.broker.cache) : Invariant loader t where
  cache := hcache
  floored := hg.source ▸ hfloored
  underWay job hjob := (hunderWay job hjob).elim (fun hold => (h.underWay job hold).mono hg) id
  ended e he := (hended e he).elim (fun hold => (h.ended e hold).mono hg) id

theorem Invariant.withCache (h : Invariant loader s) (hcache : cache.Orderly)
    (hg : s.broker.cache.Grows cache) : Invariant loader (s.withCache cache) :=
  h.of_grows hcache hg h.floored (fun _ => .inl) (fun _ => .inl)

theorem Invariant.withJob (h : Invariant loader s) (hjob : job.Sound loader s.broker.cache)
    (n : Nat) : Invariant loader (s.withJob n job) := by
  refine h.of_grows h.cache (.refl _) h.floored (fun other hother => ?_) (fun _ => .inl)
  rcases List.mem_or_eq_of_mem_set hother with hold | rfl
  · exact .inl hold
  · exact .inr hjob

theorem Invariant.accept (h : Invariant loader s) {version : String} {input : Json} {a : Admitted}
    (ha : s.broker.admission version input = .ok a) :
    Invariant loader (s.accept version input a) := by
  obtain ⟨rfl, hkind, hread⟩ := Broker.admission_eq_ok ha
  obtain ⟨asked, hasked, hcache, hg, hleads⟩ := h.cache.request hkind
  refine h.of_grows hcache hg h.floored (fun job hjob => ?_) (fun _ => .inl)
  rcases List.mem_append.mp hjob with hold | hnew
  · exact .inl hold
  · obtain rfl := List.mem_singleton.mp hnew
    exact .inr {
      version := rfl
      kind := hkind
      read := hread
      floored := hg.source ▸ h.floored
      build := ⟨asked, (hg.pathOf_eq _ _).trans hasked, hleads, fun l hl => by cases hl⟩
      loaded := fun capability hl => by cases hl
      traced := ⟨rfl, rfl⟩ }

theorem Invariant.step (h : Invariant loader s) (hstep : Step loader s t) : Invariant loader t := by
  cases hstep with
  | refresh scripted native =>
    exact h.of_grows h.cache (.refl _) (h.floored.after scripted native) (fun _ => .inl)
      (fun _ => .inl)
  | reject hrejected =>
    refine h.of_grows h.cache (.refl _) h.floored (fun _ => .inl) (fun e he => ?_)
    rcases List.mem_append.mp he with hold | hnew
    · exact .inl hold
    · obtain rfl := List.mem_singleton.mp hnew
      exact .inr (Broker.admission_eq_error hrejected)
  | accept hadmitted => exact h.accept hadmitted
  | complete n refused fetched =>
    obtain ⟨hcache, hg⟩ := h.cache.complete refused n fetched
    exact h.withCache hcache hg
  | forget hd hend hin => exact h.withCache (h.cache.forget hd hend hin) (Cache.grows_forget _ _)
  | launch hjob hwait ha =>
    exact h.withJob ((h.underWay _ (List.mem_of_getElem? hjob)).launch h.cache hwait ha _) _
  | load hjob hl hload => exact h.withJob ((h.underWay _ (List.mem_of_getElem? hjob)).load hl hload) _
  | write hjob hl written =>
    exact h.of_grows (h.cache.withFiles _) (Cache.grows_withFiles _ _) h.floored (fun _ => .inl)
      (fun _ => .inl)
  | conclude hjob hends =>
    refine h.of_grows h.cache (.refl _) h.floored
      (fun job hmem => .inl ((List.eraseIdx_sublist _ _).subset hmem)) (fun e he => ?_)
    rcases List.mem_append.mp he with hold | hnew
    · exact .inl hold
    · obtain rfl := List.mem_singleton.mp hnew
      exact .inr ⟨h.underWay _ (List.mem_of_getElem? hjob), hends.made_prefix⟩

theorem Invariant.reaches (h : Invariant loader s) (hr : Reaches loader s t) :
    Invariant loader t := by
  induction hr with
  | refl => exact h
  | tail _ hstep ih => exact ih.step hstep

theorem Invariant.sound_of_mem_concluded (h : Invariant loader s) {c : Job × Ending}
    (hc : c ∈ s.concluded) : c.1.Sound loader s.broker.cache := by
  obtain ⟨e, he, hsome⟩ := List.mem_filterMap.mp hc
  cases e with
  | rejected arrival failure => cases hsome
  | concluded job ending made =>
    cases hsome
    exact (h.ended _ he).1

end Traffic

/-- A fresh broker that keeps one trace. -/
def Broker.untouched : Broker where
  cache := {
    root := ⟨"/", ["cache"]⟩
    source := ⟨"https://depot", "linux-amd64", ⟨0, 6, 0, none, none⟩⟩ }
  traces := { capacity := 1 }
  timeout := .ofInt 1

theorem Broker.isFresh_untouched : untouched.IsFresh := ⟨rfl, rfl, rfl, rfl⟩

namespace Traffic

/-- The same broker after it has read a list of one scripted build, with a request for it whose
build is being downloaded. -/
def asked : Traffic :=
  let known : Snapshot := ⟨["v0.8.20"], [], true⟩
  let download : Download :=
    { version := "0.8.20", kind := .scripted, path := ⟨"/", ["cache", "soljson-v0.8.20.js"]⟩ }
  { broker := { Broker.untouched with
      known
      cache := { Broker.untouched.cache with
        downloads := [download]
        inFlight := [("soljson-v0.8.20.js", 0)] } }
    underWay := [⟨⟨"0.8.20", .obj [("sources", .obj [])], known⟩,
      ⟨"0.8.20", .scripted, ⟨"Solidity", [], [], []⟩⟩, .waiting 0,
      { version := "0.8.20", protocol := "scripted" }, none, none⟩] }

theorem reaches_asked : Reaches loader { broker := .untouched } asked := by
  let list : Fetched := .response { body := Text.utf8 "soljson-v0.8.20.js\n" }
  have hkind : asked.broker.known.classify "0.8.20" = .ok .scripted := by decide
  have hrequest : Broker.untouched.cache.request asked.broker.known "0.8.20" =
      (.waiting 0, asked.broker.cache) := by
    have hpath : Broker.untouched.cache.pathOf .scripted "0.8.20" =
        .ok ⟨"/", ["cache", "soljson-v0.8.20.js"]⟩ := by decide
    have habsent : Broker.untouched.cache.files.present
        ⟨"/", ["cache", "soljson-v0.8.20.js"]⟩ = .ok false := rfl
    rw [Cache.request_eq hkind hpath, habsent]
    rfl
  have hknown : Catalog.after Broker.untouched.cache.source Broker.untouched.known list
      (.response {}) = asked.broker.known := by decide
  have hlisted : Reaches loader { broker := .untouched }
      { broker := { Broker.untouched with known := asked.broker.known } } := by
    rw [← hknown]
    exact .single (.refresh { broker := .untouched } list (.response {}))
  have hasked := hlisted.tail (.accept (Broker.admission_of_known
    (b := { Broker.untouched with known := asked.broker.known }) hkind (.obj [("sources", .obj [])])))
  rw [accept_eq hrequest] at hasked
  exact hasked

end Traffic

end SolcDispatch
