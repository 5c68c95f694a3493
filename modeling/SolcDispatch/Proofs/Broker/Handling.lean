import SolcDispatch.Proofs.Broker.Traffic

/-! A request that a broker handles on its own, from its start to its end, is one of the ways
in which its steps can follow each other. -/

namespace SolcDispatch

namespace Ended

def arrival : Ended → Arrival
  | rejected arrival _ => arrival
  | concluded job _ _ => job.arrival

def ending : Ended → Ending
  | rejected _ failure => .finished (.error failure)
  | concluded _ ending _ => ending

def calls : Ended → List Call
  | rejected _ _ => []
  | concluded _ _ made => made

end Ended

variable {σ : Type} {loader : Loader σ} {around : Surroundings σ}

namespace Traffic

/-- After the second state, one more request has ended than after the first one, as a
compilation says. -/
structure Handles (loader : Loader σ) (s : Traffic) (arrival : Arrival) (c : Compilation)
    (t : Traffic) : Prop where
  reaches : Reaches loader s t
  broker : t.broker = c.broker
  underWay : t.underWay = s.underWay
  ended : ∃ e : Ended, t.ended = s.ended ++ [e] ∧ e.arrival = arrival ∧ e.ending = c.ending ∧
    e.calls = c.calls

end Traffic

theorem Cache.inFlight_complete (cache : Cache) (refused : WriteStep → Bool) (n : Nat)
    (fetched : Fetched) : (cache.complete refused n fetched).inFlight = cache.inFlight := by
  unfold complete
  split
  · rfl
  · split <;> rfl

theorem Invocation.trace_ofScripted {files : Files} {path : FilePath} {capability : Capability}
    {state : σ} (h : loader.load files path = .ok (capability, state)) (document : StandardInput)
    (trace : Trace) : ∃ diagnostics, (ofScripted loader files path document trace).trace =
      { trace with protocol := protocolOf capability, stderr := diagnostics } := by
  unfold ofScripted
  rw [h]
  exact ⟨_, rfl⟩

namespace Job

variable {job : Job} {l : Launch}

/-- A run without an end tells no more than what a loaded build has said. -/
theorem trace_of_hung (hloaded : job.loaded = job.loads loader l)
    (hprotocol : job.trace.protocol = job.protocol)
    (h : (job.run loader l).outcome = .error .hung) :
    ∃ diagnostics, (job.run loader l).trace = job.traceWith diagnostics := by
  unfold loads at hloaded
  unfold traceWith
  rw [run] at h ⊢
  cases hkind : job.admitted.kind with
  | native =>
    rw [hkind] at h hloaded
    refine ⟨"", ?_⟩
    rw [hloaded]
    simp only [Invocation.run, Invocation.ofNative] at h ⊢
    cases hpayload : job.admitted.document.payloadText with
    | error failure => rfl
    | ok text =>
      rw [hpayload] at h
      dsimp only at h ⊢
      cases hrun : Native.run l.files l.path (Text.utf8 text) with
      | error stop => rfl
      | ok done =>
        rw [hrun] at h
        dsimp only at h
        cases hout : done.output <;> rw [hout] at h <;> cases h
  | scripted =>
    rw [hkind] at hloaded
    cases hload : loader.load l.files l.path with
    | error stop =>
      rw [hload] at hloaded
      refine ⟨"", ?_⟩
      rw [hloaded, Invocation.run, Invocation.ofScripted, hload]
      rfl
    | ok found =>
      obtain ⟨capability, state⟩ := found
      rw [hload] at hloaded
      have hsome : job.loaded = some capability := hloaded
      obtain ⟨diagnostics, htrace⟩ :=
        Invocation.trace_ofScripted hload job.admitted.document job.trace
      have hloadedProtocol : job.trace.protocol = Invocation.protocolOf capability := by
        rw [hprotocol, protocol, hsome]
      refine ⟨diagnostics, htrace.trans ?_⟩
      rw [hsome, ← hloadedProtocol]
      rfl

/-- Only a scripted build is loaded, and its run names its protocol itself. -/
theorem run_of_loads {capability : Capability} (h : job.loads loader l = some capability) :
    run loader { job with
      launch := some l
      loaded := some capability
      trace := { job.trace with protocol := Invocation.protocolOf capability } } l =
    job.run loader l := by
  unfold loads at h
  unfold run
  cases hkind : job.admitted.kind with
  | native =>
    rw [hkind] at h
    cases h
  | scripted =>
    rw [hkind] at h
    simp only [Invocation.run, Invocation.ofScripted]
    cases hfound : loader.load l.files l.path with
    | error stop =>
      rw [hfound] at h
      cases h
    | ok found => rfl

/-- The end of a run is one of the ends that a job may come to. -/
theorem ends_run (hl : job.launch = some l) (hloaded : job.loaded = job.loads loader l)
    (hprotocol : job.trace.protocol = job.protocol) (b : Broker) (abandoned : Bool) :
    job.Ends loader (b.keepFiles (job.run loader l).written)
      (b.endingOf abandoned (job.run loader l).outcome) (job.run loader l).trace
      (job.run loader l).calls := by
  have hmade : (job.run loader l).calls <+: job.calls loader :=
    (calls_of_launch hl).symm ▸ List.prefix_rfl
  cases hrun : (job.run loader l).outcome with
  | ok result => exact .ran hl hloaded (by rw [hrun]; rfl)
  | error stop =>
    cases stop with
    | failed failure => exact .ran hl hloaded (by rw [hrun]; rfl)
    | hung =>
      obtain ⟨diagnostics, htrace⟩ := trace_of_hung hloaded hprotocol hrun
      rw [htrace]
      cases abandoned with
      | true => exact .cancelled diagnostics hmade
      | false => exact .expired diagnostics (by rw [hl]; rfl) hmade

end Job

namespace Traffic

variable {s : Traffic} {n : Nat} {job : Job}

theorem Invariant.reaches_download (h : Invariant loader s) (around : Surroundings σ) (n : Nat) :
    Reaches loader s (s.withCache (Broker.download around s.broker.cache n).2) := by
  unfold Broker.download
  cases hd : s.broker.cache.downloads[n]? with
  | none => exact .refl
  | some d =>
    by_cases hrun : d.isRunning
    · dsimp only
      rw [if_pos hrun]
      let fetched := (around.depot.get around.followsRedirections (s.broker.cache.urlOf d)).1
      let after := s.broker.cache.complete around.refused n fetched
      have hcomplete : Reaches loader s (s.withCache after) :=
        .single (.complete s n around.refused fetched)
      obtain ⟨outcome, hafter, -⟩ :=
        (h.cache.complete around.refused n fetched).2.downloads hd
      change Reaches loader s (s.withCache
        (if (after.downloads[n]?).any Download.isRunning then after else after.forget d.name))
      split
      · exact hcomplete
      · rename_i hend
        have hshared : Assoc.get? after.inFlight d.name = some n := by
          rw [Cache.inFlight_complete]
          exact h.cache.shared hd hrun
        refine hcomplete.tail (Step.forget (d := { d with outcome }) hafter ?_ hshared)
        intro hrunning
        exact hend (hafter ▸ hrunning)
    · dsimp only
      rw [if_neg hrun]
      exact .refl

theorem Invariant.reaches_downloadAll (h : Invariant loader s) (around : Surroundings σ) :
    Reaches loader s (s.withCache (Broker.downloadAll around s.broker.cache).2) := by
  have hall (ns : List Nat) : ∀ {s : Traffic} (paths : List String), Invariant loader s →
      Reaches loader s (s.withCache (ns.foldl (fun all n =>
        (all.1 ++ (Broker.download around all.2 n).1, (Broker.download around all.2 n).2))
        (paths, s.broker.cache)).2) := by
    induction ns with
    | nil => exact fun _ _ => .refl
    | cons n ns ih =>
      intro s paths h
      have hfirst := h.reaches_download around n
      exact hfirst.trans (ih _ (h.reaches hfirst))
  exact hall _ [] h

/-- A build that has come is started, and loaded if it has to be and can be. -/
theorem Reaches.launch (hjob : s.underWay[n]? = some job) (hwait : job.launch = none)
    (hloaded : job.loaded = none) (hprotocol : job.trace.protocol = job.protocol) {path : FilePath}
    (ha : s.broker.cache.answer? job.ticket = some (.ok path)) :
    ∃ second : Job, Reaches loader s (s.withJob n second) ∧
      second.arrival = job.arrival ∧ second.launch = some ⟨s.broker.cache.files, path⟩ ∧
      second.loaded = second.loads loader ⟨s.broker.cache.files, path⟩ ∧
      second.trace.protocol = second.protocol ∧
      second.run loader ⟨s.broker.cache.files, path⟩ =
        job.run loader ⟨s.broker.cache.files, path⟩ := by
  let l : Launch := ⟨s.broker.cache.files, path⟩
  let started : Job := { job with launch := some l }
  have hlaunch : Reaches loader s (s.withJob n started) := .single (.launch hjob hwait ha)
  cases hload : job.loads loader l with
  | none =>
    have hloads : started.loads loader l = none := hload
    exact ⟨started, hlaunch, rfl, rfl, hloaded.trans hloads.symm, hprotocol, rfl⟩
  | some capability =>
    have hn := (List.getElem?_eq_some_iff.mp hjob).1
    have hstarted : (s.withJob n started).underWay[n]? = some started := by
      rw [withJob, List.getElem?_set_self hn]
    have hloads : started.loads loader l = some capability := hload
    have hstep := Step.load hstarted rfl hloads
    rw [withJob, withJob, List.set_set] at hstep
    exact ⟨_, hlaunch.tail hstep, rfl, rfl, hload.symm, rfl, Job.run_of_loads hload⟩

/-- An admitted request waits for its build until it is there or cannot be had. -/
theorem Invariant.reaches_acquired (h : Invariant loader s) {version : String} {input : Json}
    {a : Admitted} (ha : s.broker.admission version input = .ok a) {paths : List String}
    {answer : Option (Except Failure FilePath)} {after : Broker}
    (hacquire : s.broker.acquire around a.version = (answer, paths, after)) :
    ∃ ticket, after.cache.answer? ticket = answer ∧
      Reaches loader s ⟨after, s.underWay ++ [⟨⟨version, input, s.broker.known⟩, a, ticket,
        { version := a.version, protocol := a.kind.name }, none, none⟩], s.ended⟩ := by
  have hserved : Reaches loader s ((s.accept version input a).withCache _) :=
    .head (.accept ha) ((h.accept ha).reaches_downloadAll around)
  unfold Broker.acquire at hacquire
  simp only [Prod.mk.injEq] at hacquire
  obtain ⟨rfl, -, rfl⟩ := hacquire
  exact ⟨_, rfl, hserved⟩

/-- The last of the requests under way comes to its end. -/
theorem Handles.of_conclude {b : Broker}
    (hr : Reaches loader s ⟨b, s.underWay ++ [job], s.ended⟩) {ending : Ending} {trace : Trace}
    {made : List Call} (hends : job.Ends loader b ending trace made) (paths : List String) :
    Handles loader s job.arrival ⟨ending, made, paths, b.recordTrace trace ending⟩
      ⟨b.recordTrace trace ending, s.underWay, s.ended ++ [.concluded job ending made]⟩ := by
  have hjob : (s.underWay ++ [job])[s.underWay.length]? = some job := List.getElem?_concat_length
  have hstep := Step.conclude (s := ⟨b, s.underWay ++ [job], s.ended⟩) hjob hends
  have herase : (s.underWay ++ [job]).eraseIdx s.underWay.length = s.underWay := by
    rw [List.eraseIdx_append_of_length_le (Nat.le_refl _), Nat.sub_self, List.eraseIdx_cons_zero,
      List.append_nil]
  rw [herase] at hstep
  exact ⟨hr.tail hstep, rfl, rfl, _, rfl, rfl, rfl, rfl⟩

theorem Invariant.handles_invoke (h : Invariant loader s) {version : String} {input : Json}
    {a : Admitted} (ha : s.broker.admission version input = .ok a) (hloader : around.loader = loader)
    (abandoned : Bool) :
    ∃ t, Handles loader s ⟨version, input, s.broker.known⟩ (s.broker.invoke around abandoned a) t := by
  subst hloader
  rcases hacquire : s.broker.acquire around a.version with ⟨answer, paths, after⟩
  obtain ⟨ticket, hanswer, hr⟩ := h.reaches_acquired ha hacquire
  obtain ⟨asked, kind, document⟩ := a
  rcases answer with _ | failure | path
  · have hhandles := Handles.of_conclude hr (.cancelled "" List.nil_prefix) paths
    rw [Broker.invoke_of_silent abandoned kind document hacquire]
    exact ⟨_, hhandles⟩
  · have hhandles := Handles.of_conclude hr (.refused rfl hanswer) paths
    rw [Broker.invoke_of_failed abandoned kind document hacquire]
    exact ⟨_, hhandles⟩
  · let waiting : Job := ⟨⟨version, input, s.broker.known⟩, ⟨asked, kind, document⟩, ticket,
      { version := asked, protocol := kind.name }, none, none⟩
    have hjob : (s.underWay ++ [waiting])[s.underWay.length]? = some waiting :=
      List.getElem?_concat_length
    obtain ⟨second, hlaunch, harrival, hl, hloaded, hprotocol, hrun⟩ :=
      Reaches.launch (s := ⟨after, _, s.ended⟩) hjob rfl rfl rfl hanswer
    have hset : (⟨after, s.underWay ++ [waiting], s.ended⟩ : Traffic).withJob s.underWay.length
        second = ⟨after, s.underWay ++ [second], s.ended⟩ := by
      simp [Traffic.withJob]
    rw [hset] at hlaunch
    have hsame : second.run around.loader ⟨after.cache.files, path⟩ =
        Invocation.run around.loader after.cache.files kind path document
          { version := asked, protocol := kind.name } := hrun
    have hlast : second ∈ s.underWay ++ [second] := List.mem_concat_self
    have hwritten := (hr.trans hlaunch).tail (.write hlast (by rw [hl]; rfl)
      (second.run around.loader ⟨after.cache.files, path⟩).written)
    have hhandles := Handles.of_conclude hwritten
      (Job.ends_run hl hloaded hprotocol after abandoned) paths
    rw [hsame, harrival] at hhandles
    rw [Broker.invoke_of_acquired abandoned kind document hacquire, Broker.concluded]
    exact ⟨_, hhandles⟩

/-- Each request, whatever comes of it, is handled in steps. -/
theorem Invariant.handles_compile (h : Invariant loader s) (hloader : around.loader = loader)
    (abandoned : Bool) (version : String) (input : Json) :
    ∃ t, Handles loader s ⟨version, input, s.broker.known⟩
      (s.broker.compile around abandoned version input) t := by
  cases ha : s.broker.admission version input with
  | error failure =>
    rw [Broker.compile_of_refused ha]
    exact ⟨_, .single (.reject ha), rfl, rfl, _, rfl, rfl, rfl, rfl⟩
  | ok a =>
    rw [Broker.compile_of_admitted ha]
    exact h.handles_invoke ha hloader abandoned

end Traffic

end SolcDispatch
