import SolcDispatch.Http.Health
import SolcDispatch.Proofs.Broker.Handling

/-! The traces that a broker keeps. Each admitted request leaves one when it ends, which tells
how it ended, and the latest of them are kept in the order in which their requests ended. -/

namespace SolcDispatch

theorem FailureClass.name_ne_empty (c : FailureClass) : c.name ≠ "" := by
  cases c <;> decide

theorem Failure.describe_ne_empty (failure : Failure) : failure.describe ≠ "" := by
  unfold describe
  split
  · exact failure.failureClass.name_ne_empty
  · assumption

namespace Ending

/-- The text and the name of the class of what a request without a result raises. -/
def raised? : Ending → Option (String × String)
  | .finished (.ok _) => none
  | .finished (.error failure) => some (failure.message, failure.failureClass.name)
  | .cancelled => some ("", "CancelledError")

def raisedText? (ending : Ending) : Option String :=
  ending.raised?.map fun (text, name) => if text = "" then name else text

end Ending

/-- What the trace of an admitted request says. -/
structure Tells (job : Job) (ending : Ending) (t : Trace) : Prop where
  version : t.version = job.arrival.version
  finished : t.finished = true
  protocol : t.protocol = match job.admitted.kind, job.loaded with
    | .native, _ => "native"
    | .scripted, none => "scripted"
    | .scripted, some capability =>
      if capability.isLegacy then "scripted-legacy" else "scripted-modern"
  ok_iff : t.ok = true ↔ ∃ result, ending = .finished (.ok result)
  failed : ∀ failure, ending = .finished (.error failure) →
    t.error = ending.raisedText? ∧ t.error ≠ some ""
  cancelled : ending = .cancelled → t.error = some "cancelled"

variable {σ : Type} {loader : Loader σ} {cache : Cache} {job : Job}

theorem Invocation.trace_ofNative {τ : Type} [TextLike τ] (files : Files) (path : FilePath)
    (document : StandardInput τ) (trace : Trace) :
    (ofNative files path document trace).trace.version = trace.version ∧
      (ofNative files path document trace).trace.protocol = trace.protocol := by
  unfold ofNative
  split
  · exact ⟨rfl, rfl⟩
  · dsimp only
    split <;> exact ⟨rfl, rfl⟩

theorem Job.trace_run {l : Launch} (hloaded : job.loaded = job.loads loader l)
    (hprotocol : job.trace.protocol = job.protocol) :
    (job.run loader l).trace.version = job.trace.version ∧
      (job.run loader l).trace.protocol = job.protocol := by
  unfold loads at hloaded
  rw [run]
  cases hkind : job.admitted.kind with
  | native =>
    rw [← hprotocol]
    exact Invocation.trace_ofNative l.files l.path job.admitted.document job.trace
  | scripted =>
    rw [hkind] at hloaded
    cases hload : loader.load l.files l.path with
    | error stop =>
      rw [Invocation.run, Invocation.ofScripted, hload]
      exact ⟨rfl, hprotocol⟩
    | ok found =>
      obtain ⟨capability, state⟩ := found
      have hsome : job.loaded = some capability := by rw [hloaded, hload]; rfl
      obtain ⟨diagnostics, htrace⟩ :=
        Invocation.trace_ofScripted hload job.admitted.document job.trace
      rw [Invocation.run, htrace, protocol, hsome]
      exact ⟨rfl, rfl⟩

/-- What stays of the trace of a job to its end. -/
theorem Job.Ends.trace_eq {b : Broker} {ending : Ending} {trace : Trace} {made : List Call}
    (hends : job.Ends loader b ending trace made) (h : job.Sound loader cache) :
    trace.version = job.arrival.version ∧ trace.protocol = job.protocol := by
  cases hends with
  | refused => exact h.traced
  | ran hl hloaded hrun =>
    obtain ⟨hversion, hprotocol⟩ := Job.trace_run hloaded h.traced.2
    exact ⟨hversion.trans h.traced.1, hprotocol⟩
  | expired diagnostics hl hmade =>
    unfold traceWith
    split <;> exact h.traced
  | cancelled diagnostics hmade =>
    unfold traceWith
    split <;> exact h.traced

theorem Job.Ends.tells {b : Broker} {ending : Ending} {trace : Trace} {made : List Call}
    (hends : job.Ends loader b ending trace made) (h : job.Sound loader cache) :
    Tells job ending (trace.finish (Broker.Ending.error ending)) := by
  obtain ⟨hversion, hprotocol⟩ := hends.trace_eq h
  refine ⟨hversion, rfl, ?_, ?_, ?_, ?_⟩
  · rw [Trace.finish, hprotocol, protocol]
    cases hkind : job.admitted.kind with
    | native => rw [h.loaded_of_native hkind]; rfl
    | scripted => cases job.loaded <;> rfl
  · rcases ending with (_ | _) | _ <;> simp [Trace.finish, Trace.ok, Broker.Ending.error]
  · rintro failure rfl
    exact ⟨rfl, fun he => failure.describe_ne_empty (Option.some.inj he)⟩
  · rintro rfl
    rfl

/-- A full ring loses its oldest trace for the new one. -/
theorem TraceRing.recent_record {ring : TraceRing} {traces : List Trace}
    (h : ring.recent = traces.drop (traces.length - ring.capacity)) (t : Trace) :
    (ring.record t).recent = (traces ++ [t]).drop ((traces ++ [t]).length - ring.capacity) := by
  have hkept : ring.recent ++ [t] = (traces ++ [t]).drop (traces.length - ring.capacity) := by
    rw [h, List.drop_append_of_le_length (Nat.sub_le _ _)]
  have hlength : (traces ++ [t]).length = traces.length + 1 := List.length_append
  have hfirst : traces.length - ring.capacity +
      (traces.length + 1 - (traces.length - ring.capacity) - ring.capacity) =
        traces.length + 1 - ring.capacity := by omega
  simp only [record, hkept, List.drop_drop, List.length_drop, hlength, hfirst]

namespace Traffic

variable {s t : Traffic} {capacity : Nat}

/-- The ring holds the latest traces of the admitted requests that have ended. -/
structure Keeps (capacity : Nat) (s : Traffic) : Prop where
  size : s.broker.traces.capacity = capacity
  recent : ∃ traces, List.Forall₂ (fun c t => Tells c.1 c.2 t) s.concluded traces ∧
    s.broker.traces.recent = traces.drop (traces.length - capacity)

theorem Keeps.of_eq (h : Keeps capacity s) (htraces : t.broker.traces = s.broker.traces)
    (hconcluded : t.concluded = s.concluded) : Keeps capacity t := by
  constructor
  · rw [htraces, h.size]
  · rw [htraces, hconcluded]
    exact h.recent

theorem Keeps.step (h : Keeps capacity s) (hs : Invariant loader s) (hstep : Step loader s t) :
    Keeps capacity t := by
  cases hstep with
  | refresh scripted native => exact h.of_eq rfl rfl
  | reject hrejected => exact h.of_eq rfl (by simp [concluded, Ended.concluded?])
  | accept hadmitted => exact h.of_eq rfl rfl
  | complete n refused fetched => exact h.of_eq rfl rfl
  | forget hd hend hin => exact h.of_eq rfl rfl
  | launch hjob hwait ha => exact h.of_eq rfl rfl
  | load hjob hl hload => exact h.of_eq rfl rfl
  | write hjob hl written => exact h.of_eq rfl rfl
  | conclude hjob hends =>
    rename_i n job ending trace made
    obtain ⟨traces, htells, hrecent⟩ := h.recent
    have htold := hends.tells (hs.underWay job (List.mem_of_getElem? hjob))
    refine ⟨h.size, traces ++ [trace.finish (Broker.Ending.error ending)], ?_, ?_⟩
    · rw [concluded, List.filterMap_append]
      exact List.rel_append htells (.cons htold .nil)
    · rw [← h.size] at hrecent ⊢
      exact TraceRing.recent_record hrecent _

theorem Keeps.reaches (h : Keeps capacity s) (hs : Invariant loader s) (hr : Reaches loader s t) :
    Keeps capacity t := by
  induction hr with
  | refl => exact h
  | tail hr hstep ih => exact ih.step (hs.reaches hr) hstep

theorem Keeps.of_fresh {b : Broker} (h : b.IsFresh) : Keeps b.traces.capacity { broker := b } :=
  ⟨rfl, [], .nil, by rw [List.drop_nil]; exact h.recent⟩

theorem Invariant.concluded_iff (h : Invariant loader s) {e : Ended} (he : e ∈ s.ended) :
    e.concluded?.isSome = true ↔ e.arrival.known.exists? e.arrival.version = true ∧
      ∃ document, StandardInput.parse e.arrival.input = .ok document := by
  have hsound := h.ended e he
  cases e with
  | rejected arrival failure =>
    refine ⟨fun hsome => absurd hsome Bool.false_ne_true, ?_⟩
    rintro ⟨hknown, document, hread⟩
    rcases hsound with ⟨hunknown, -⟩ | ⟨-, violations, hrejected, -⟩
    · rw [Ended.arrival, hunknown] at hknown
      cases hknown
    · rw [Ended.arrival, hrejected] at hread
      cases hread
  | concluded job ending made =>
    obtain ⟨document, hread, -⟩ := hsound.1.read
    exact ⟨fun _ => ⟨Catalog.exists?_iff_classify.mpr ⟨_, hsound.1.kind⟩, document, hread⟩,
      fun _ => rfl⟩

/-- In every state that a fresh broker can get to, its traces are those of the latest admitted
requests that have ended, oldest first, and its health tells their number and that of the
failures among them. -/
theorem recent_traces_tell_endings {b : Broker} (hb : b.IsFresh)
    (hr : Reaches loader { broker := b } s) :
    (∃ traces, List.Forall₂ (fun c t => Tells c.1 c.2 t) s.concluded traces ∧
      s.broker.traces.recent = traces.drop (traces.length - b.traces.capacity)) ∧
    (∀ e ∈ s.ended, e.concluded?.isSome = true ↔
      e.arrival.known.exists? e.arrival.version = true ∧
        ∃ document, StandardInput.parse e.arrival.input = .ok document) ∧
    (∀ c ∈ s.concluded, ∀ capability ∈ c.1.loaded, ∃ l ∈ c.1.launch,
      c.1.loads loader l = some capability) ∧
    (∀ environment, ((Http.Health.ofBroker s.broker).1.report environment).get? "invocations" =
      some (.obj [("recent", .ofNat s.broker.traces.recent.length),
        ("failed", .ofNat (s.broker.traces.recent.filter fun t => !t.ok).length)])) ∧
    ∀ around : Surroundings σ, around.loader = loader → ∀ abandoned version input,
      ∃ t, Handles loader s ⟨version, input, s.broker.known⟩
        (s.broker.compile around abandoned version input) t := by
  have hs : Invariant loader s := (Invariant.of_fresh hb).reaches hr
  refine ⟨((Keeps.of_fresh hb).reaches (.of_fresh hb) hr).recent, fun e => hs.concluded_iff,
    fun c hc => (hs.sound_of_mem_concluded hc).loaded, fun environment => ?_,
    fun around hloader abandoned version input => hs.handles_compile hloader abandoned version input⟩
  rw [← List.countP_eq_length_filter]
  rfl

/-- Two admitted requests wait for one download, which fails when only the second one is still
there, and the ring has room for one trace. -/
theorem recent_trace_tells_refusal :
    let refusal : Failure := .downloadRefused "0.8.20" 404 "Not Found"
    Broker.untouched.IsFresh ∧ ∃ s, Reaches Loader.rehearsals { broker := .untouched } s ∧
      s.ended.map (·.arrival.version) = ["9.9.9", "0.8.20", "v0.8.20"] ∧
      (∃ traces, List.Forall₂ (fun c t => Tells c.1 c.2 t) s.concluded traces ∧
        s.broker.traces.recent = traces.drop 1) ∧
      s.broker.traces.recent = [{
        version := "v0.8.20", protocol := "scripted", finished := true
        error := some refusal.describe }] ∧
      refusal.describe = "fetch 0.8.20 returned 404: Not Found" := by
  intro refusal
  let input : Json := .obj [("sources", .obj [])]
  have hkind : asked.broker.known.classify "v0.8.20" = .ok .scripted := by decide
  have hjoin : asked.broker.cache.request asked.broker.known "v0.8.20" =
      (.waiting 0, asked.broker.cache) := by
    have hpath : asked.broker.cache.pathOf .scripted "v0.8.20" =
        .ok ⟨"/", ["cache", "soljson-v0.8.20.js"]⟩ := by decide
    have habsent : asked.broker.cache.files.present
        ⟨"/", ["cache", "soljson-v0.8.20.js"]⟩ = .ok false := rfl
    rw [Cache.request_eq hkind hpath, habsent]
    rfl
  have hunknown : asked.broker.known.exists? "9.9.9" = false := by decide
  have hrejected : Reaches Loader.rehearsals { broker := .untouched } _ :=
    reaches_asked.tail (.reject (Broker.admission_of_unknown hunknown input))
  have hcancelled := hrejected.tail (.conclude (n := 0) rfl (.cancelled "" List.nil_prefix))
  have hsecond := hcancelled.tail (.accept (Broker.admission_of_known
    (b := asked.broker.recordTrace _ .cancelled) hkind input))
  rw [accept_eq hjoin] at hsecond
  have hfailed := hsecond.tail (.complete _ 0 (fun _ => false) (.response { status := 404 }))
  have hrefused := hfailed.tail (.conclude (n := 0) rfl (.refused rfl
    (show _ = some (Except.error refusal) by rfl)))
  obtain ⟨⟨traces, htells, hrecent⟩, -⟩ :=
    recent_traces_tell_endings Broker.isFresh_untouched hrefused
  have hlength : 2 = traces.length := htells.length_eq
  rw [← hlength] at hrecent
  exact ⟨Broker.isFresh_untouched, _, hrefused, rfl, ⟨traces, htells, hrecent⟩, rfl, by decide⟩

/-- A request that its caller gives up. The trace names no class of errors. -/
theorem cancelled_trace_names_no_class :
    Broker.untouched.IsFresh ∧
    ∃ s job t, Reaches Loader.rehearsals { broker := .untouched } s ∧
      s.concluded = [(job, .cancelled)] ∧ s.broker.traces.recent = [t] ∧
      t.error = some "cancelled" ∧ t.error ≠ Ending.cancelled.raisedText? := by
  have hcancelled : Reaches Loader.rehearsals { broker := .untouched } _ :=
    reaches_asked.tail (.conclude (n := 0) rfl (.cancelled "" List.nil_prefix))
  exact ⟨Broker.isFresh_untouched, _, _, _, hcancelled, rfl, rfl, rfl, by decide⟩

end Traffic

end SolcDispatch
