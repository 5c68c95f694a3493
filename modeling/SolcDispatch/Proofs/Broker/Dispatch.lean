import SolcDispatch.Proofs.Broker.Handling

/-! Nothing happens before a request is admitted, and an admitted request is dispatched by the
kind that its version had when it came, whatever the catalog has learnt since. -/

namespace SolcDispatch

variable {σ : Type} {loader : Loader σ} {cache : Cache} {job : Job}

/-- All admitted requests, whether they have ended or not. -/
def Traffic.jobs (s : Traffic) : List Job := s.underWay ++ s.concluded.map Prod.fst

/-- A job that is dispatched by the kind of its version: its build is asked for and run as one of
that kind. A native build never meets an interpreter, and a scripted one meets nothing else. -/
structure Job.Follows (loader : Loader σ) (cache : Cache) (job : Job) : Prop where
  version : job.admitted.version = job.arrival.version
  classified : job.arrival.known.classify job.arrival.version = .ok job.admitted.kind
  acquired : ∃ asked, cache.pathOf job.admitted.kind job.arrival.version = .ok asked ∧
    cache.Leads asked job.ticket ∧ (∀ l ∈ job.launch, cache.IsAt asked l.path) ∧
    ∀ n d, job.ticket = .waiting n → cache.downloads[n]? = some d →
      '/' ∉ cache.source.platform.toList → d.kind = job.admitted.kind ∧ d.path = asked
  native : job.admitted.kind = .native → job.loaded = none ∧ job.calls loader = [] ∧ ∀ l,
    job.run loader l = Invocation.ofNative l.files l.path job.admitted.document job.trace
  scripted : job.admitted.kind = .scripted → ∀ l, (job.run loader l).written = [] ∧
    ∀ files, loader.load files l.path = loader.load l.files l.path →
      job.run loader ⟨files, l.path⟩ = job.run loader l
  floor : ∀ v, CompilerVersion.parse? job.arrival.version = some v →
    v.isBefore cache.source.floor = true → job.admitted.kind = .scripted

theorem Invocation.written_ofScripted (files : Files) (path : FilePath) (document : StandardInput)
    (trace : Trace) : (ofScripted loader files path document trace).written = [] := by
  unfold ofScripted
  split <;> rfl

theorem Invocation.ofScripted_congr {files other : Files} {path : FilePath}
    (h : loader.load files path = loader.load other path) (document : StandardInput)
    (trace : Trace) :
    ofScripted loader files path document trace = ofScripted loader other path document trace := by
  unfold ofScripted
  rw [h]

theorem Job.Sound.follows (h : job.Sound loader cache) (hc : cache.Orderly) :
    job.Follows loader cache := by
  obtain ⟨asked, hasked, hleads, hlaunch⟩ := h.build
  refine ⟨h.version, h.kind, ⟨asked, hasked, hleads, hlaunch, ?_⟩, ?_, ?_, ?_⟩
  · intro n d hticket hd hslash
    rw [hticket] at hleads
    obtain ⟨e, he, hname⟩ := hleads
    rw [hd, Option.some.injEq] at he
    subst he
    have hpath : d.path = asked := (hc.isAt_of_name_eq hasked hd hname).2 hslash
    exact ⟨Cache.kind_of_pathOf (hpath ▸ hc.placed hd) hasked, hpath⟩
  · intro hkind
    refine ⟨h.loaded_of_native hkind, calls_eq_nil_of_native hkind, fun l => ?_⟩
    rw [run, hkind]
    rfl
  · intro hkind l
    simp only [run, hkind]
    exact ⟨Invocation.written_ofScripted _ _ _ _,
      fun files hload => Invocation.ofScripted_congr hload _ _⟩
  · intro v hv hbelow
    cases hkind : job.admitted.kind with
    | scripted => rfl
    | native => exact absurd (hkind ▸ h.kind) (h.floored.classify_ne hv hbelow)

namespace Traffic

variable {s : Traffic}

theorem Invariant.sound_of_mem_jobs (h : Invariant loader s) (hjob : job ∈ s.jobs) :
    job.Sound loader s.broker.cache := by
  rcases List.mem_append.mp hjob with hjob | hjob
  · exact h.underWay job hjob
  · obtain ⟨c, hc, rfl⟩ := List.mem_map.mp hjob
    exact h.sound_of_mem_concluded hc

theorem Invariant.made_of_native (h : Invariant loader s) {ending : Ending} {made : List Call}
    (he : .concluded job ending made ∈ s.ended) (hkind : job.admitted.kind = .native) :
    made = [] := by
  have hmade := (h.ended _ he).2
  rw [Job.calls_eq_nil_of_native hkind] at hmade
  exact List.prefix_nil.mp hmade

/-- A request for an unknown version, or with an input that cannot be read, leaves no trace of
any kind. Every other one is acquired and run by the kind of its version at that time, in every
state that a fresh broker can get to. -/
theorem dispatch_follows_classification {b : Broker} (hb : b.IsFresh)
    (hr : Reaches loader { broker := b } s) :
    (∀ (around : Surroundings σ) (b : Broker) (abandoned : Bool) (version : String) (input : Json),
      let c := b.compile around abandoned version input
      (b.known.exists? version = false →
        c = { ending := .finished (.error .unknownVersion), broker := b }) ∧
      (b.known.exists? version = true → ∀ violations, StandardInput.parse input = .error violations →
        c = { ending := .finished (.error (.invalidInput violations)), broker := b }) ∧
      (b.known.exists? version = true → ∀ document, StandardInput.parse input = .ok document →
        ∃ kind, b.known.classify version = .ok kind ∧
          c = b.invoke around abandoned ⟨version, kind, document.withoutModelChecker⟩)) ∧
    (Failure.unknownVersion.message = "invalid version" ∧
      Failure.unknownVersion.failureClass.name = "UnknownVersionError" ∧
      ∀ violations, (Failure.invalidInput violations).violations = violations ∧
        (Failure.invalidInput violations).failureClass.name = "InputValidationError") ∧
    (∀ job ∈ s.jobs, job.Follows loader s.broker.cache) ∧
    (∀ job ending made, .concluded job ending made ∈ s.ended → job.admitted.kind = .native →
      made = []) ∧
    ∀ around : Surroundings σ, around.loader = loader → ∀ abandoned version input,
      ∃ t, Handles loader s ⟨version, input, s.broker.known⟩
        (s.broker.compile around abandoned version input) t := by
  have hs : Invariant loader s := (Invariant.of_fresh hb).reaches hr
  refine ⟨fun around b abandoned version input => ⟨fun hunknown => ?_, fun hknown violations hread => ?_,
      fun hknown document hread => ?_⟩, ⟨rfl, rfl, fun violations => ⟨rfl, rfl⟩⟩,
    fun job hjob => (hs.sound_of_mem_jobs hjob).follows hs.cache,
    fun job ending made he => hs.made_of_native he,
    fun around hloader abandoned version input => hs.handles_compile hloader abandoned version input⟩
  · exact Broker.compile_of_refused (Broker.admission_of_unknown hunknown input)
  · obtain ⟨kind, hkind⟩ := Broker.classify_of_exists hknown
    refine Broker.compile_of_refused ?_
    rw [Broker.admission_of_known hkind, hread]
  · obtain ⟨kind, hkind⟩ := Broker.classify_of_exists hknown
    exact ⟨kind, hkind, Broker.compile_of_document hkind hread⟩

/-- The second list names a native build of the version while the scripted one is downloaded. The
first request keeps its kind, and the second one has the new one and a download of its own. -/
theorem dispatch_follows_classification_across_refresh :
    let scripted : FilePath := ⟨"/", ["cache", "soljson-v0.8.20.js"]⟩
    let native : FilePath := ⟨"/", ["cache", "solc-linux-amd64-v0.8.20"]⟩
    Broker.untouched.IsFresh ∧
    ∃ s first second, Reaches Loader.rehearsals { broker := .untouched } s ∧
      s.jobs = [first, second] ∧ s.broker.known.classify "0.8.20" = .ok .native ∧
      first.Follows Loader.rehearsals s.broker.cache ∧ first.admitted.kind = .scripted ∧
      first.launch.map Launch.path = some scripted ∧
      second.Follows Loader.rehearsals s.broker.cache ∧ second.admitted.kind = .native ∧
      s.broker.cache.downloads.map (·.path) = [scripted, native] := by
  intro scripted native
  let learnt : Snapshot := ⟨["v0.8.20"], ["v0.8.20"], true⟩
  have hkind : learnt.classify "0.8.20" = .ok .native := by decide
  have hrequest : asked.broker.cache.request learnt "0.8.20" = (.waiting 1,
      { asked.broker.cache with
        downloads := asked.broker.cache.downloads ++
          [{ version := "0.8.20", kind := .native, path := native }]
        inFlight := asked.broker.cache.inFlight ++ [("solc-linux-amd64-v0.8.20", 1)] }) := by
    have hpath : asked.broker.cache.pathOf .native "0.8.20" = .ok native := by decide
    have habsent : asked.broker.cache.files.present native = .ok false := rfl
    rw [Cache.request_eq hkind hpath, habsent]
    rfl
  let list : Fetched := .response { body := Text.utf8 "soljson-v0.8.20.js\n" }
  let nativeList : Fetched := .response { body := Text.utf8 "solc-linux-amd64-v0.8.20\n" }
  have hlearnt : Catalog.after asked.broker.cache.source asked.broker.known list nativeList =
      learnt := by decide
  have hlearning : Reaches Loader.rehearsals { broker := .untouched } (asked.withKnown learnt) := by
    rw [← hlearnt]
    exact reaches_asked.tail (.refresh asked list nativeList)
  have hsecond := hlearning.tail
    (.accept (Broker.admission_of_known hkind (.obj [("sources", .obj [])])))
  rw [accept_eq hrequest] at hsecond
  have hlanded := hsecond.tail (.complete _ 0 (fun _ => false) (.response {}))
  have hlaunched := hlanded.tail (.launch (n := 0) rfl rfl
    (show _ = some (Except.ok scripted) by rfl))
  obtain ⟨-, -, hfollows, -⟩ :=
    dispatch_follows_classification Broker.isFresh_untouched hlaunched
  refine ⟨Broker.isFresh_untouched, _, _, _, hlaunched, rfl, hkind, hfollows _ ?_, rfl, rfl,
    hfollows _ ?_, rfl, rfl⟩
  · exact List.mem_cons_self
  · exact List.mem_cons_of_mem _ List.mem_cons_self

end Traffic

end SolcDispatch
