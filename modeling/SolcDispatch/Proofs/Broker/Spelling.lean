import SolcDispatch.Broker.Compile
import SolcDispatch.Proofs.Cache.Failures
import SolcDispatch.Proofs.Cache.Spelling

/-! A broker asked for versions in different spellings. Two brokers that differ only in
spellings stay so whatever they are asked for, and answer alike: the spelling shows in traces
and in what is said of a failed download, and nowhere else. -/

namespace SolcDispatch

open CompilerVersion (spelling)

variable {σ : Type} {v w : String}

namespace Cache

variable {cache other : Cache}

theorem request_alike (known : Snapshot) (hc : cache.respelled = other.respelled)
    (h : spelling v = spelling w) :
    (cache.request known v).1.respelled = (other.request known w).1.respelled ∧
      (cache.request known v).2.respelled = (other.request known w).2.respelled := by
  have hr := cache.request_respelled known v
  rw [hc, h, other.request_respelled known w] at hr
  exact (Prod.mk.inj hr).imp Eq.symm Eq.symm

theorem answer?_alike {ticket second : Ticket} (hc : cache.respelled = other.respelled)
    (h : ticket.respelled = second.respelled) :
    (cache.answer? ticket).map respelledAnswer = (other.answer? second).map respelledAnswer := by
  rw [← answer?_respelled, hc, h, answer?_respelled]

theorem answers_respelled (cache : Cache) (tickets : List Ticket) :
    (tickets.map cache.answer?).map (Option.map respelledAnswer) =
      (tickets.map Ticket.respelled).map cache.respelled.answer? := by
  simp only [List.map_map, Function.comp_def, answer?_respelled]

end Cache

namespace Broker

theorem download_respelled (around : Surroundings σ) (cache : Cache) (n : Nat) :
    download around cache.respelled n =
      ((download around cache n).1, (download around cache n).2.respelled) := by
  unfold download
  rw [Cache.getElem?_respelled]
  cases cache.downloads[n]? with
  | none => rfl
  | some d =>
    simp only [Option.map_some, Download.isRunning_respelled, Cache.urlOf_respelled,
      Cache.complete_respelled, Cache.getElem?_respelled, Option.any_map,
      Download.name_respelled, Cache.forget_respelled]
    by_cases hrun : d.isRunning
    · rw [if_pos hrun, if_pos hrun]
      dsimp only
      rw [apply_ite Cache.respelled]
    · rw [if_neg hrun, if_neg hrun]

theorem downloadAll_respelled (around : Surroundings σ) (cache : Cache) :
    downloadAll around cache.respelled =
      ((downloadAll around cache).1, (downloadAll around cache).2.respelled) := by
  unfold downloadAll
  rw [Cache.length_downloads_respelled]
  -- Over all downloads still to come, with whatever was asked of the depot before them.
  suffices h : ∀ (ns : List Nat) (paths : List String) (cache : Cache),
      ns.foldl (fun all n => (all.1 ++ (download around all.2 n).1, (download around all.2 n).2))
        (paths, cache.respelled) =
      let done := ns.foldl (fun all n =>
        (all.1 ++ (download around all.2 n).1, (download around all.2 n).2)) (paths, cache)
      (done.1, done.2.respelled) from h _ [] cache
  intro ns
  induction ns with
  | nil => exact fun _ _ => rfl
  | cons n ns ih =>
    intro paths cache
    simp only [List.foldl_cons, download_respelled]
    exact ih _ _

theorem downloadAll_alike (around : Surroundings σ) {cache other : Cache}
    (h : cache.respelled = other.respelled) :
    (downloadAll around cache).1 = (downloadAll around other).1 ∧
      (downloadAll around cache).2.respelled = (downloadAll around other).2.respelled := by
  have hd := downloadAll_respelled around cache
  rw [h, downloadAll_respelled around other] at hd
  exact (Prod.mk.inj hd).imp Eq.symm Eq.symm

end Broker

/-- Errors of traces that differ at most in how a failed download spells its version. -/
def Trace.SameError (error other : Option String) : Prop :=
  error = other ∨ ∃ failure second : Failure, failure.failureClass = .acquisition ∧
    failure.respelled = second.respelled ∧ error = some failure.describe ∧
    other = some second.describe

structure Trace.Alike (t u : Trace) : Prop where
  version : spelling t.version = spelling u.version
  rest : { t with version := u.version, error := u.error } = u
  error : Trace.SameError t.error u.error

structure TraceRing.Alike (r s : TraceRing) : Prop where
  capacity : r.capacity = s.capacity
  recent : List.Forall₂ Trace.Alike r.recent s.recent

theorem TraceRing.Alike.record {r s : TraceRing} (h : r.Alike s) {t u : Trace} (ht : t.Alike u) :
    (r.record t).Alike (s.record u) := by
  have hkept : List.Forall₂ Trace.Alike (r.recent ++ [t]) (s.recent ++ [u]) :=
    List.rel_append h.recent (.cons ht .nil)
  refine ⟨h.capacity, ?_⟩
  simp only [TraceRing.record, hkept.length_eq, h.capacity]
  exact List.forall₂_drop _ hkept

theorem Trace.SameError.of_respelled {failure second : Failure}
    (h : failure.respelled = second.respelled) :
    SameError (some failure.describe) (some second.describe) := by
  by_cases hclass : failure.failureClass = .acquisition
  · exact .inr ⟨failure, second, hclass, h, rfl, rfl⟩
  · have hsecond : second.failureClass ≠ .acquisition := by
      rwa [← second.failureClass_respelled, ← h, failure.failureClass_respelled]
    rw [Failure.respelled_eq_self hclass, Failure.respelled_eq_self hsecond] at h
    exact .inl (by rw [h])

theorem Trace.Alike.finish {t u : Trace} (h : t.Alike u) {error other : Option String}
    (he : Trace.SameError error other) : (t.finish error).Alike (u.finish other) := by
  refine ⟨h.version, ?_, he⟩
  have hrest := congrArg (fun trace => Trace.finish trace other) h.rest
  simpa [Trace.finish] using hrest

/-- The trace of a run has the version of the request and takes no part in the run. -/
theorem Invocation.run_version (loader : Loader σ) (files : Files) (kind : BuildKind)
    (path : FilePath) (document : StandardInput) (trace : Trace) (version : String) :
    run loader files kind path document { trace with version } =
      { run loader files kind path document trace with
        trace := { (run loader files kind path document trace).trace with version } } := by
  cases kind with
  | native =>
    simp only [run, ofNative]
    cases document.payloadText with
    | error failure => rfl
    | ok text =>
      dsimp only
      cases Native.run files path (Text.utf8 text) <;> rfl
  | scripted =>
    simp only [run, ofScripted]
    cases loader.load files path <;> rfl

theorem Invocation.run_respelled (loader : Loader σ) (files : Files) (kind : BuildKind)
    (path : FilePath) (document : StandardInput) (trace : Trace)
    (h : spelling trace.version = spelling w) :
    let first := run loader files kind path document trace
    let second := run loader files kind path document { trace with version := w }
    second.outcome = first.outcome ∧ second.calls = first.calls ∧
      second.written = first.written ∧ first.trace.Alike second.trace := by
  intro first second
  have hsecond : second = { first with trace := { first.trace with version := w } } :=
    run_version loader files kind path document trace w
  have hversion : first.trace.version = trace.version :=
    congrArg (fun done => done.trace.version)
      (run_version loader files kind path document trace trace.version)
  rw [hsecond]
  exact ⟨rfl, rfl, rfl, hversion.symm ▸ h, rfl, .inl rfl⟩

def Ending.respelled : Ending → Ending
  | .finished result => .finished (respelledAnswer result)
  | .cancelled => .cancelled

theorem Ending.sameError {ending other : Ending} (h : ending.respelled = other.respelled) :
    Trace.SameError (Broker.Ending.error ending) (Broker.Ending.error other) := by
  rcases ending with (failure | result) | _ <;> rcases other with (second | second) | _ <;>
    simp only [respelled, respelledAnswer, Except.mapError, Ending.finished.injEq,
      Except.error.injEq, reduceCtorEq] at h
  · exact .of_respelled h
  · exact .inl rfl
  · exact .inl rfl

structure Admitted.Alike (a b : Admitted) : Prop where
  version : spelling a.version = spelling b.version
  kind : a.kind = b.kind
  document : a.document = b.document

/-- Two brokers that differ at most in the spellings of versions. -/
structure Broker.Alike (b c : Broker) : Prop where
  known : b.known = c.known
  cache : b.cache.respelled = c.cache.respelled
  timeout : b.timeout = c.timeout
  traces : b.traces.Alike c.traces

structure Compilation.Alike (x y : Compilation) : Prop where
  ending : x.ending.respelled = y.ending.respelled
  calls : x.calls = y.calls
  paths : x.paths = y.paths
  broker : x.broker.Alike y.broker

namespace Broker

variable {b c : Broker}

theorem Alike.files (h : b.Alike c) : b.cache.files = c.cache.files := by
  rw [← Cache.files_respelled, h.cache, Cache.files_respelled]

theorem Alike.source (h : b.Alike c) : b.cache.source = c.cache.source := by
  rw [← Cache.source_respelled, h.cache, Cache.source_respelled]

theorem Alike.acquire (h : b.Alike c) (around : Surroundings σ) (hvw : spelling v = spelling w) :
    (b.acquire around v).1.map respelledAnswer = (c.acquire around w).1.map respelledAnswer ∧
      (b.acquire around v).2.1 = (c.acquire around w).2.1 ∧
      (b.acquire around v).2.2.Alike (c.acquire around w).2.2 := by
  have hrequest := Cache.request_alike c.known h.cache hvw
  rw [← h.known] at hrequest
  obtain ⟨hpaths, hcache⟩ := downloadAll_alike around hrequest.2
  simp only [Broker.acquire, ← h.known]
  exact ⟨Cache.answer?_alike hcache hrequest.1, hpaths, rfl, hcache, h.timeout, h.traces⟩

theorem Alike.admission (h : b.Alike c) (hvw : spelling v = spelling w) (input : Json) :
    (∃ failure, b.admission v input = .error failure ∧ c.admission w input = .error failure) ∨
    ∃ first second, b.admission v input = .ok first ∧ c.admission w input = .ok second ∧
      first.Alike second := by
  unfold Broker.admission
  rw [← h.known, ← b.known.exists?_congr hvw, ← b.known.classify_congr hvw]
  by_cases hknown : b.known.exists? v
  · simp only [hknown, Bool.not_true, Bool.false_eq_true, if_false]
    cases StandardInput.parse input with
    | error violations => exact .inl ⟨_, rfl, rfl⟩
    | ok document =>
      cases b.known.classify v with
      | error failure => exact .inl ⟨failure, rfl, rfl⟩
      | ok kind => exact .inr ⟨_, _, rfl, rfl, hvw, rfl, rfl⟩
  · simp only [hknown, Bool.not_false, if_true]
    exact .inl ⟨_, rfl, rfl⟩

theorem Alike.endingOf (h : b.Alike c) (abandoned : Bool) (outcome : Except Stop Json) :
    b.endingOf abandoned outcome = c.endingOf abandoned outcome := by
  unfold Broker.endingOf
  rw [h.timeout]

theorem Alike.keepFiles (h : b.Alike c) (written : List (String × Text.Bytes)) :
    (b.keepFiles written).Alike (c.keepFiles written) := by
  have hcache (files : Files) : Cache.respelled { b.cache with files } =
      Cache.respelled { c.cache with files } :=
    congrArg (fun cache : Cache => { cache with files }) h.cache
  refine ⟨h.known, ?_, h.timeout, h.traces⟩
  simp only [Broker.keepFiles, h.files]
  exact hcache _

theorem Alike.recordTrace (h : b.Alike c) {t u : Trace} (ht : t.Alike u) {ending other : Ending}
    (he : ending.respelled = other.respelled) :
    (b.recordTrace t ending).Alike (c.recordTrace u other) :=
  ⟨h.known, h.cache, h.timeout, h.traces.record (ht.finish (Ending.sameError he))⟩

theorem Alike.invoke (h : b.Alike c) (around : Surroundings σ) (abandoned : Bool)
    {first second : Admitted} (ha : first.Alike second) :
    (b.invoke around abandoned first).Alike (c.invoke around abandoned second) := by
  obtain ⟨hanswer, hpaths, hafter⟩ := h.acquire around ha.version
  obtain ⟨v, kind, document⟩ := first
  obtain ⟨w, _, _⟩ := second
  obtain ⟨hversion, rfl, rfl⟩ := ha
  unfold Broker.invoke
  rcases hb : b.acquire around v with ⟨answer, paths, after⟩
  rcases hc : c.acquire around w with ⟨other, _, next⟩
  simp only [hb, hc] at hanswer hpaths hafter
  subst hpaths
  have htrace : Trace.Alike { version := v, protocol := kind.name }
      { version := w, protocol := kind.name } := ⟨hversion, rfl, .inl rfl⟩
  rcases answer with _ | (failure | path) <;> rcases other with _ | (second | second) <;>
    simp only [Option.map_some, Option.map_none, respelledAnswer, Except.mapError,
      Option.some.injEq, Except.error.injEq, Except.ok.injEq, reduceCtorEq] at hanswer
  · exact ⟨rfl, rfl, rfl, hafter.recordTrace htrace rfl⟩
  · have hending : (Ending.finished (.error failure)).respelled =
        (Ending.finished (.error second)).respelled := by
      simp only [Ending.respelled, respelledAnswer, Except.mapError, hanswer]
    exact ⟨hending, rfl, rfl, hafter.recordTrace htrace hending⟩
  · subst hanswer
    dsimp only
    obtain ⟨houtcome, hcalls, hwritten, htraced⟩ := Invocation.run_respelled around.loader
      after.cache.files kind path document { version := v, protocol := kind.name } hversion
    rw [← hafter.files, ← hafter.endingOf, houtcome, hcalls, hwritten]
    exact ⟨rfl, rfl, rfl, (hafter.keepFiles _).recordTrace htraced rfl⟩

theorem Alike.compile (h : b.Alike c) (around : Surroundings σ) (abandoned : Bool)
    (hvw : spelling v = spelling w) (input : Json) :
    (b.compile around abandoned v input).Alike (c.compile around abandoned w input) := by
  unfold Broker.compile
  rcases h.admission hvw input with ⟨failure, hb, hc⟩ | ⟨first, second, hb, hc, ha⟩
  · rw [hb, hc]
    exact ⟨rfl, rfl, rfl, h⟩
  · rw [hb, hc]
    exact h.invoke around abandoned ha

theorem requestAll_alike {cache other : Cache} (known : Snapshot)
    (hc : cache.respelled = other.respelled) {versions spelt : List String}
    (h : versions.map spelling = spelt.map spelling) :
    (requestAll cache known versions).1.map Ticket.respelled =
        (requestAll other known spelt).1.map Ticket.respelled ∧
      (requestAll cache known versions).2.respelled =
        (requestAll other known spelt).2.respelled := by
  induction versions generalizing cache other spelt with
  | nil =>
    obtain rfl := List.map_eq_nil_iff.mp h.symm
    exact ⟨rfl, hc⟩
  | cons v versions ih =>
    cases spelt with
    | nil => cases h
    | cons w spelt =>
      obtain ⟨hhead, htail⟩ := List.cons.inj h
      obtain ⟨hticket, hcache⟩ := Cache.request_alike known hc hhead
      obtain ⟨htickets, hcaches⟩ := ih hcache htail
      exact ⟨by simp only [requestAll, List.map_cons, hticket, htickets], hcaches⟩

theorem Alike.acquireAll (h : b.Alike c) (around : Surroundings σ) {versions spelt : List String}
    (hvw : versions.map spelling = spelt.map spelling) :
    (b.acquireAll around versions).1.map (Option.map respelledAnswer) =
        (c.acquireAll around spelt).1.map (Option.map respelledAnswer) ∧
      (b.acquireAll around versions).2.1 = (c.acquireAll around spelt).2.1 ∧
      (b.acquireAll around versions).2.2.Alike (c.acquireAll around spelt).2.2 := by
  have hrequest := requestAll_alike c.known h.cache hvw
  rw [← h.known] at hrequest
  obtain ⟨hpaths, hcache⟩ := downloadAll_alike around hrequest.2
  simp only [Broker.acquireAll, ← h.known]
  refine ⟨?_, hpaths, rfl, hcache, h.timeout, h.traces⟩
  rw [Cache.answers_respelled, Cache.answers_respelled, hrequest.1, hcache]

theorem Alike.refresh (h : b.Alike c) (around : Surroundings σ) :
    (b.refresh around).1 = (c.refresh around).1 ∧ (b.refresh around).2.1 = (c.refresh around).2.1 ∧
      (b.refresh around).2.2.Alike (c.refresh around).2.2 := by
  simp only [Broker.refresh, h.source, h.known, true_and]
  exact ⟨rfl, h.cache, h.timeout, h.traces⟩

end Broker

end SolcDispatch
