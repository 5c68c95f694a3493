import SolcDispatch.Proofs.Cache.SharingInvariant

/-! Whatever the order of requests, ends of downloads and cancellations, a build is
downloaded by one download at a time and written once, and all who wait for it share its
end. -/

namespace SolcDispatch

namespace Download

def hasFailed (d : Download) : Bool := d.outcome matches some (.error _)

def hasSucceeded (d : Download) : Bool := d.outcome matches some (.ok _)

end Download

namespace Sharing

/-- How a caller ends: with a complete file, with the error of the one download that it
joined, or refused at once. -/
inductive Ends (files : Files) (events : List Event) (s : Sharing) (c : Caller) :
    Except Failure FilePath → Prop
  | complete {asked path : FilePath} (hasked : s.cache.Locates c.known c.version asked)
      (hname : path.fileName = asked.fileName)
      (hpath : '/' ∉ s.cache.source.platform.toList → path = asked)
      (hcomplete : IsComplete files events s path) : Ends files events s c (.ok path)
  | failed {asked : FilePath} {n : Nat} {d : Download} {failure : Failure}
      (hasked : s.cache.Locates c.known c.version asked)
      (hticket : c.ticket = .waiting n) (hd : s.cache.downloads[n]? = some d)
      (hname : d.name = asked.fileName) (hfailed : d.outcome = some (.error failure)) :
      Ends files events s c (.error failure)
  | refused {failure : Failure} (hticket : c.ticket = .ready (.error failure))
      (hrefused : s.cache.Refuses c.known c.version failure) :
      Ends files events s c (.error failure)

variable {files : Files} {events : List Event} {s : Sharing}

theorem Invariant.ends (h : Invariant files events s) {c : Caller} (hc : c ∈ s.callers)
    {answer : Except Failure FilePath} (ha : s.cache.answer? c.ticket = some answer) :
    Ends files events s c answer := by
  have hserved := h.served hc
  unfold IsServed at hserved
  cases ht : c.ticket with
  | ready ready =>
    rw [ht] at ha hserved
    cases ha
    cases answer with
    | ok path =>
      obtain ⟨hp, hcomplete⟩ := hserved
      exact .complete hp rfl (fun _ => rfl) hcomplete
    | error failure => exact .refused ht hserved
  | waiting n =>
    rw [ht] at ha hserved
    obtain ⟨asked, d, hp, hd, hname⟩ := hserved
    rw [Cache.answer?, hd, Option.bind_some] at ha
    cases answer with
    | ok path =>
      obtain ⟨rfl, hw⟩ := h.fetched hd ha
      refine .complete hp hname (fun hslash => ?_) (.inr hw)
      exact Artifact.IsPath.eq_of_fileName hslash (h.places hd) hp.isPath hname
    | error failure => exact .failed hp ht hd hname ha

theorem countP_le_one {α : Type} {p : α → Bool} {items : List α}
    (h : ∀ {n m : Nat} {a b : α}, items[n]? = some a → items[m]? = some b → n < m →
      p a → p b → False) : items.countP p ≤ 1 := by
  induction items with
  | nil => exact Nat.zero_le 1
  | cons a items ih =>
    by_cases hp : p a
    · have hzero : items.countP p = 0 := by
        rw [List.countP_eq_zero]
        intro b hb hpb
        obtain ⟨m, hm⟩ := List.mem_iff_getElem?.mp hb
        exact h (n := 0) (m := m + 1) rfl hm (Nat.zero_lt_succ m) hp hpb
      have hcount : (a :: items).countP p = items.countP p + 1 := List.countP_cons_of_pos hp
      omega
    · rw [List.countP_cons_of_neg hp]
      exact ih fun hn hm hlt => h (n := _ + 1) (m := _ + 1) hn hm (Nat.succ_lt_succ hlt)

theorem Invariant.countP_running_le (h : Invariant files events s) (name : String) :
    s.cache.downloads.countP (fun d => d.isRunning && d.name == name) ≤ 1 := by
  refine countP_le_one fun {n m d e} hn hm hlt hd he => ?_
  simp only [Bool.and_eq_true, beq_iff_eq] at hd he
  have heq := h.eq_of_name_eq hn hm (h.notMem_forgotten hn hd.1) (h.notMem_forgotten hm he.1)
    (hd.2.trans he.2.symm)
  omega

theorem Invariant.countP_not_failed_le (h : Invariant files events s) (path : FilePath) :
    s.cache.downloads.countP (fun d => decide (d.path = path) && !d.hasFailed) ≤ 1 := by
  refine countP_le_one fun {n m d e} hn hm hlt hd he => ?_
  simp only [Bool.and_eq_true, decide_eq_true_eq, Bool.not_eq_true'] at hd he
  obtain ⟨failure, hf⟩ := h.once hn hm hlt (hd.1.trans he.1.symm)
  simp [Download.hasFailed, hf] at hd

theorem countP_path_le (downloads : List Download) (path : FilePath)
    (h : downloads.countP (fun d => decide (d.path = path) && !d.hasFailed) ≤ 1) :
    downloads.countP (fun d => decide (d.path = path)) ≤
      1 + downloads.countP fun d => decide (d.path = path) && d.hasFailed := by
  have hsplit := List.countP_eq_countP_filter_add downloads (fun d => decide (d.path = path))
    Download.hasFailed
  rw [List.countP_filter, List.countP_filter] at hsplit
  omega

theorem countP_succeeded_le (downloads : List Download) (path : FilePath)
    (h : downloads.countP (fun d => decide (d.path = path) && !d.hasFailed) ≤ 1) :
    downloads.countP (fun d => decide (d.path = path) && d.hasSucceeded) ≤ 1 := by
  refine Nat.le_trans (List.countP_mono_left fun d _ hd => ?_) h
  simp only [Bool.and_eq_true] at hd ⊢
  refine ⟨hd.1, ?_⟩
  obtain ⟨version, kind, path, outcome⟩ := d
  rcases outcome with _ | (_ | _)
  · rfl
  · cases hd.2
  · rfl

theorem Invariant.get?_inFlight_step_forget (h : Invariant files events s) {name : String}
    {n m : Nat} (hin : Assoc.get? s.cache.inFlight name = some m) (hne : m ≠ n) :
    Assoc.get? (s.step (.forget n)).cache.inFlight name = some m := by
  obtain ⟨hm, e, he, hname⟩ := h.entered hin
  obtain ⟨hs, ht⟩ := h.step_forget n
  obtain ⟨outcome, he', _⟩ := ht.grows.downloads he
  have hf : m ∉ (s.step (.forget n)).forgotten := by
    simp only [Sharing.step]
    split
    · exact hm
    · split
      · exact hm
      · rw [List.mem_cons, not_or]
        exact ⟨hne, hm⟩
  have hin := hs.shared he' hf
  rw [← hname]
  exact hin

/-- When all downloads have ended and are forgotten, none is shared and all callers have
their answers. -/
theorem Invariant.drained (h : Invariant files events s)
    (hend : ∀ d ∈ s.cache.downloads, ¬ d.isRunning)
    (hforgotten : ∀ n < s.cache.downloads.length, n ∈ s.forgotten) :
    s.cache.inFlight = [] ∧ ∀ c ∈ s.callers, (s.cache.answer? c.ticket).isSome := by
  constructor
  · refine Assoc.eq_nil_of_get?_none fun name => ?_
    cases hin : Assoc.get? s.cache.inFlight name with
    | none => rfl
    | some n =>
      obtain ⟨hn, d, hd, _⟩ := h.entered hin
      exact absurd (hforgotten n (List.getElem?_eq_some_iff.mp hd).1) hn
  · intro c hc
    have hserved := h.served hc
    unfold IsServed at hserved
    cases ht : c.ticket with
    | ready answer => rfl
    | waiting n =>
      rw [ht] at hserved
      obtain ⟨_, d, _, hd, _⟩ := hserved
      have hrun := hend d (List.mem_of_getElem? hd)
      rw [Cache.answer?, hd, Option.bind_some, Option.isSome_iff_ne_none]
      simpa [Download.isRunning] using hrun

/-- Who asks in the course of events, and what is known then. -/
def asked (known : Snapshot) : List Event → List (String × Snapshot)
  | [] => []
  | .refresh fresh :: events => asked fresh events
  | .ask version :: events => (version, known) :: asked known events
  | .complete .. :: events => asked known events
  | .forget _ :: events => asked known events
  | .cancel _ :: events => asked known events

theorem step_forget_frame (s : Sharing) (n : Nat) :
    (s.step (.forget n)).callers = s.callers ∧ (s.step (.forget n)).known = s.known := by
  simp only [step]
  split
  · exact ⟨rfl, rfl⟩
  · split <;> exact ⟨rfl, rfl⟩

theorem callers_run (s : Sharing) (events : List Event) :
    (s.run events).callers.map (fun c => (c.version, c.known)) =
      s.callers.map (fun c => (c.version, c.known)) ++ asked s.known events := by
  induction events generalizing s with
  | nil => exact (List.append_nil _).symm
  | cons event events ih =>
    rw [run_cons, ih]
    cases event with
    | refresh fresh => rfl
    | ask version =>
      simp only [step, List.map_append, List.map_cons, List.map_nil, List.append_assoc,
        List.singleton_append, asked]
    | complete n refused fetched => rfl
    | forget n =>
      obtain ⟨hcallers, hknown⟩ := s.step_forget_frame n
      rw [hcallers, hknown]
      rfl
    | cancel n =>
      have hcallers : (s.step (.cancel n)).callers.map (fun c => (c.version, c.known)) =
          s.callers.map fun c => (c.version, c.known) := by
        refine List.ext_getElem? fun m => ?_
        simp only [step, List.getElem?_map, List.getElem?_modify]
        cases s.callers[m]? with
        | none => rfl
        | some c => by_cases hm : n = m <;> simp [hm]
      rw [hcallers]
      rfl

/-- A download that is answered ends, and with its file if the response is good and the file can
be written. -/
theorem exists_outcome_of_complete {n : Nat} {d : Download}
    (hd : s.cache.downloads[n]? = some d) (hrun : d.isRunning) (refused : WriteStep → Bool)
    {fetched : Fetched} (hfetched : fetched ≠ .silence) : ∃ outcome,
      (s.step (.complete n refused fetched)).cache.downloads[n]? =
        some { d with outcome := some outcome } ∧
      (outcome = .ok d.path ↔ ∃ r, fetched = .response r ∧ r.status = 200 ∧
        (s.cache.files.write refused d.path (Cache.kept d.kind r).1
          (Cache.kept d.kind r).2).1 = .ok ()) := by
  have hlt : n < s.cache.downloads.length := (List.getElem?_eq_some_iff.mp hd).1
  have hstep {outcome : Except Failure FilePath}
      (ho : (Cache.result refused s.cache.files d fetched).1 = some outcome) :
      (s.step (.complete n refused fetched)).cache.downloads[n]? =
        some { d with outcome := some outcome } := by
    simp only [step, Cache.complete, hd, if_pos hrun, ho]
    exact List.getElem?_set_self hlt
  cases fetched with
  | silence => exact absurd rfl hfetched
  | failed reason =>
    refine ⟨_, hstep rfl, iff_of_false (by simp) ?_⟩
    rintro ⟨r, hr, -⟩
    cases hr
  | response r =>
    by_cases hstatus : r.status = 200
    · let written := s.cache.files.write refused d.path (Cache.kept d.kind r).1
        (Cache.kept d.kind r).2
      refine ⟨written.1.map fun _ => d.path, hstep ?_, ?_⟩
      · simp only [Cache.result, if_pos hstatus]
        rfl
      · cases hwritten : written.1 with
        | error failure =>
          refine iff_of_false (by simp [Except.map]) ?_
          rintro ⟨other, hother, -, hok⟩
          cases hother
          rw [hok] at hwritten
          cases hwritten
        | ok done => exact iff_of_true rfl ⟨r, rfl, hstatus, hwritten⟩
    · have hrefused : (Cache.result refused s.cache.files d (.response r)).1 =
          some (.error (.downloadRefused d.version r.status (Response.phrase r.status))) := by
        simp only [Cache.result, if_neg hstatus]
      refine ⟨_, hstep hrefused, iff_of_false (by simp) ?_⟩
      rintro ⟨other, hother, hok, -⟩
      cases hother
      exact hstatus hok

/-- A download that has ended is forgotten once, and is shared no more. -/
theorem forgotten_step_forget {n : Nat} {d : Download} (hd : s.cache.downloads[n]? = some d)
    (hend : ¬ d.isRunning) (hn : n ∉ s.forgotten) :
    (s.step (.forget n)).forgotten = n :: s.forgotten ∧
      Assoc.get? (s.step (.forget n)).cache.inFlight d.name = none := by
  have hskip : ¬ (d.isRunning || s.forgotten.contains n) = true := by
    simpa [hn] using hend
  simp only [step, hd, if_neg hskip, true_and]
  exact Assoc.get?_without_self

def Event.isCancel : Event → Bool
  | .cancel _ => true
  | _ => false

def uncancelled (s : Sharing) : Sharing :=
  { s with callers := s.callers.map fun c => { c with cancelled := false } }

theorem uncancelled_step_cancel (s : Sharing) (n : Nat) :
    (s.step (.cancel n)).uncancelled = s.uncancelled := by
  simp only [step, uncancelled]
  congr 1
  refine List.ext_getElem? fun m => ?_
  simp only [List.getElem?_map, List.getElem?_modify]
  cases s.callers[m]? with
  | none => rfl
  | some c => by_cases hm : n = m <;> simp [hm]

theorem uncancelled_step (s : Sharing) {event : Event} (h : event.isCancel = false) :
    (s.step event).uncancelled = s.uncancelled.step event := by
  cases event with
  | refresh known => rfl
  | ask version => simp [step, uncancelled]
  | complete n refused fetched => rfl
  | forget n =>
    cases hd : s.cache.downloads[n]? with
    | none => simp [step, uncancelled, hd]
    | some d =>
      by_cases hskip : d.isRunning || s.forgotten.contains n
      · simp only [step, uncancelled, hd, hskip, if_true]
      · simp only [step, uncancelled, hd, hskip, Bool.false_eq_true, if_false]
  | cancel n => cases h

theorem uncancelled_run (s : Sharing) (events : List Event) :
    (s.run events).uncancelled = s.uncancelled.run (events.filter (!·.isCancel)) := by
  induction events generalizing s with
  | nil => rfl
  | cons event events ih =>
    rw [run_cons, ih]
    cases event with
    | cancel n => rw [uncancelled_step_cancel]; rfl
    | refresh known => rw [uncancelled_step s rfl]; rfl
    | ask version => rw [uncancelled_step s rfl]; rfl
    | complete n refused fetched => rw [uncancelled_step s rfl]; rfl
    | forget n => rw [uncancelled_step s rfl]; rfl

variable {σ : Type} {around : Surroundings σ}

theorem run_asks (s : Sharing) (versions : List String) :
    (s.run (versions.map .ask)).cache = (Broker.requestAll s.cache s.known versions).2 := by
  induction versions generalizing s with
  | nil => rfl
  | cons version versions ih => exact ih (s.step (.ask version))

theorem Invariant.exists_download (h : Invariant files events s) (n : Nat) :
    ∃ more, (s.run more).cache = (Broker.download around s.cache n).2 := by
  unfold Broker.download
  cases hd : s.cache.downloads[n]? with
  | none => exact ⟨[], rfl⟩
  | some d =>
    by_cases hrun : d.isRunning
    · dsimp only
      rw [if_pos hrun]
      let fetched := (around.depot.get around.followsRedirections (s.cache.urlOf d)).1
      refine ⟨[.complete n around.refused fetched, .forget n], ?_⟩
      obtain ⟨_, ht⟩ := h.step_complete n around.refused fetched
      obtain ⟨outcome, hd', _⟩ := ht.grows.downloads hd
      have hn : s.forgotten.contains n = false := by
        simpa using h.notMem_forgotten hd hrun
      have hcomplete : (s.cache.complete around.refused n fetched).downloads[n]? =
          some { d with outcome } := hd'
      simp only [run_cons, run_nil, Sharing.step, hcomplete, hn, Bool.or_false, Option.any_some,
        fetched]
      split <;> rfl
    · exact ⟨[], by simp [hrun]⟩

/-- What a broker does when several builds are asked for at the same time is one of these
runs. -/
theorem Invariant.exists_acquireAll (h : Invariant files events s) {b : Broker}
    (hcache : s.cache = b.cache) (hknown : s.known = b.known) (versions : List String) :
    ∃ more, (s.run more).cache = (b.acquireAll around versions).2.2.cache := by
  have hdownloads (ns : List Nat) : ∀ {events : List Event} {s : Sharing} (paths : List String),
      Invariant files events s → ∃ more, (s.run more).cache =
        (ns.foldl (fun all n => (all.1 ++ (Broker.download around all.2 n).1,
          (Broker.download around all.2 n).2)) (paths, s.cache)).2 := by
    induction ns with
    | nil => exact fun _ _ => ⟨[], rfl⟩
    | cons n ns ih =>
      intro events s paths h
      obtain ⟨first, hfirst⟩ : ∃ more, (s.run more).cache = (Broker.download around s.cache n).2 :=
        h.exists_download n
      obtain ⟨rest, hrest⟩ := ih (paths ++ (Broker.download around s.cache n).1) (h.run first).1
      refine ⟨first ++ rest, ?_⟩
      rw [run_append, hrest, hfirst]
      rfl
  have hasks := run_asks s versions
  obtain ⟨rest, hrest⟩ := hdownloads
    (List.range (s.run (versions.map .ask)).cache.downloads.length) [] (h.run _).1
  refine ⟨versions.map .ask ++ rest, ?_⟩
  rw [run_append, hrest, hasks, hcache, hknown]
  rfl

/-- What holds of a shared cache after any events in any order. A name has one running
download at most; under a path one download succeeds at most, all others have failed, and
what stands there stays. -/
theorem run_single_flight (known : Snapshot) (root : FilePath) (source : ReleaseSource)
    (files : Files) (events : List Event) :
    let s := (start known root source files).run events
    (∀ name, s.cache.downloads.countP (fun d => d.isRunning && d.name == name) ≤ 1) ∧
    (∀ path, s.cache.downloads.countP (fun d => decide (d.path = path) && d.hasSucceeded) ≤ 1) ∧
    (∀ path entry, s.cache.files.entry? path = some entry →
      ∀ more, (s.run more).cache.files.entry? path = some entry) ∧
    (∀ path, s.cache.downloads.countP (fun d => decide (d.path = path)) ≤
      1 + s.cache.downloads.countP fun d => decide (d.path = path) && d.hasFailed) ∧
    (∀ n d, s.cache.downloads[n]? = some d → n ∉ s.forgotten →
      Assoc.get? s.cache.inFlight d.name = some n) ∧
    (∀ name n m, Assoc.get? s.cache.inFlight name = some m → m ≠ n →
      Assoc.get? (s.step (.forget n)).cache.inFlight name = some m) ∧
    s.callers.map (fun c => (c.version, c.known)) = asked known events ∧
    (∀ c ∈ s.callers, ∀ answer, s.cache.answer? c.ticket = some answer →
      Ends files events s c answer) ∧
    (∀ n d, s.cache.downloads[n]? = some d → d.isRunning → ∀ refused fetched,
      fetched ≠ .silence → ∃ outcome,
        (s.step (.complete n refused fetched)).cache.downloads[n]? =
          some { d with outcome := some outcome } ∧
        (outcome = .ok d.path ↔ ∃ r, fetched = .response r ∧ r.status = 200 ∧
          (s.cache.files.write refused d.path (Cache.kept d.kind r).1
            (Cache.kept d.kind r).2).1 = .ok ())) ∧
    (∀ n d, s.cache.downloads[n]? = some d → ¬ d.isRunning → n ∉ s.forgotten →
      (s.step (.forget n)).forgotten = n :: s.forgotten ∧
        Assoc.get? (s.step (.forget n)).cache.inFlight d.name = none) ∧
    s.uncancelled = (start known root source files).run (events.filter (!·.isCancel)) ∧
    ((∀ d ∈ s.cache.downloads, ¬ d.isRunning) →
      (∀ n < s.cache.downloads.length, n ∈ s.forgotten) →
      s.cache.inFlight = [] ∧ ∀ c ∈ s.callers, (s.cache.answer? c.ticket).isSome) := by
  intro s
  have h : Invariant files events s := ((Invariant.of_start known root source files).run events).1
  exact ⟨h.countP_running_le,
    fun path => countP_succeeded_le _ path (h.countP_not_failed_le path),
    fun path entry he more => (h.run more).2.stays he,
    fun path => countP_path_le _ path (h.countP_not_failed_le path),
    fun _ _ hd hn => h.shared hd hn,
    fun name n m hin hne => h.get?_inFlight_step_forget hin hne,
    callers_run _ events,
    fun c hc answer ha => h.ends hc ha,
    fun _ _ hd hrun refused _ hfetched => exists_outcome_of_complete hd hrun refused hfetched,
    fun _ _ hd hend hn => forgotten_step_forget hd hend hn,
    uncancelled_run _ events,
    h.drained⟩

end Sharing

end SolcDispatch
