import SolcDispatch.Proofs.Broker.Spelling

/-! Two spellings of a version can be put in each other's place in all that a broker is asked
for, at any time and in any state. -/

namespace SolcDispatch

open CompilerVersion (spelling)

variable {σ : Type} {a b : String}

/-- How a request ends, without the text of its failure. -/
def Ending.result? : Ending → Option (Except FailureClass Json)
  | .finished result => some (result.mapError Failure.failureClass)
  | .cancelled => none

theorem Ending.result?_congr {ending other : Ending} (h : ending.respelled = other.respelled) :
    ending.result? = other.result? := by
  have hresult (ending : Ending) : ending.respelled.result? = ending.result? := by
    rcases ending with (failure | result) | _
    · exact congrArg (fun c => some (Except.error c)) failure.failureClass_respelled
    · rfl
    · rfl
  rw [← hresult, h, hresult]

inductive Demand
  | refresh
  | acquire (versions : List String)
  | compile (abandoned : Bool) (version : String) (input : Json)

inductive Reply
  | refreshed (outcome : Option (Except Failure Snapshot)) (paths : List String)
  | acquired (answers : List (Option (Except Failure FilePath))) (paths : List String)
  | compiled (ending : Ending) (calls : List Call) (paths : List String)

def Demand.respelled : Demand → Demand
  | .refresh => .refresh
  | .acquire versions => .acquire (versions.map spelling)
  | .compile abandoned version input => .compile abandoned (spelling version) input

def Reply.respelled : Reply → Reply
  | .refreshed outcome paths => .refreshed outcome paths
  | .acquired answers paths => .acquired (answers.map (Option.map respelledAnswer)) paths
  | .compiled ending calls paths => .compiled ending.respelled calls paths

namespace Broker

def serve (around : Surroundings σ) (b : Broker) : Demand → Reply × Broker
  | .refresh =>
    let (outcome, paths, b) := b.refresh around
    (.refreshed outcome paths, b)
  | .acquire versions =>
    let (answers, paths, b) := b.acquireAll around versions
    (.acquired answers paths, b)
  | .compile abandoned version input =>
    let done := b.compile around abandoned version input
    (.compiled done.ending done.calls done.paths, done.broker)

/-- Serve one demand after another, each in its own surroundings. -/
def serveAll (b : Broker) : List (Surroundings σ × Demand) → List Reply × Broker
  | [] => ([], b)
  | (around, demand) :: rest =>
    let (reply, b) := b.serve around demand
    let (replies, b) := serveAll b rest
    (reply :: replies, b)

variable {broker other : Broker}

theorem Alike.serve (h : broker.Alike other) (around : Surroundings σ) {demand second : Demand}
    (hd : demand.respelled = second.respelled) :
    (broker.serve around demand).1.respelled = (other.serve around second).1.respelled ∧
      (broker.serve around demand).2.Alike (other.serve around second).2 := by
  cases demand <;> cases second <;>
    simp only [Demand.respelled, Demand.acquire.injEq, Demand.compile.injEq, reduceCtorEq] at hd
  case refresh.refresh =>
    obtain ⟨houtcome, hpaths, hbroker⟩ := h.refresh around
    refine ⟨?_, hbroker⟩
    simp only [Broker.serve, Reply.respelled, houtcome, hpaths]
  case acquire.acquire =>
    obtain ⟨hanswers, hpaths, hbroker⟩ := h.acquireAll around hd
    refine ⟨?_, hbroker⟩
    simp only [Broker.serve, Reply.respelled, hanswers, hpaths]
  case compile.compile abandoned _ input _ _ _ =>
    obtain ⟨rfl, hversion, rfl⟩ := hd
    have hdone := h.compile around abandoned hversion input
    refine ⟨?_, hdone.broker⟩
    simp only [Broker.serve, Reply.respelled, hdone.ending, hdone.calls, hdone.paths]

theorem Alike.serveAll (h : broker.Alike other) {demands spelt : List (Surroundings σ × Demand)}
    (hd : demands.map (fun d => (d.1, d.2.respelled)) =
      spelt.map fun d => (d.1, d.2.respelled)) :
    (broker.serveAll demands).1.map Reply.respelled =
        (other.serveAll spelt).1.map Reply.respelled ∧
      (broker.serveAll demands).2.Alike (other.serveAll spelt).2 := by
  induction demands generalizing broker other spelt with
  | nil =>
    obtain rfl := List.map_eq_nil_iff.mp hd.symm
    exact ⟨rfl, h⟩
  | cons demand demands ih =>
    cases spelt with
    | nil => cases hd
    | cons second spelt =>
      obtain ⟨hhead, htail⟩ := List.cons.inj hd
      obtain ⟨around, demand⟩ := demand
      obtain ⟨_, second⟩ := second
      obtain ⟨rfl, hdemand⟩ := Prod.mk.inj hhead
      obtain ⟨hreply, hbroker⟩ := h.serve around hdemand
      obtain ⟨hreplies, hafter⟩ := ih hbroker htail
      exact ⟨by simp only [Broker.serveAll, List.map_cons, hreply, hreplies], hafter⟩

theorem Alike.refl (broker : Broker) : broker.Alike broker :=
  ⟨rfl, rfl, rfl, rfl, List.forall₂_same.mpr fun _ _ => ⟨rfl, rfl, .inl rfl⟩⟩

end Broker

/-- The same text, or one of two texts in the place of the other. -/
def Swap (a b text other : String) : Prop :=
  text = other ∨ text = a ∧ other = b ∨ text = b ∧ other = a

theorem Swap.spelling_eq {text other : String} (h : Swap a b text other)
    (hab : spelling a = spelling b) : spelling text = spelling other := by
  rcases h with rfl | ⟨rfl, rfl⟩ | ⟨rfl, rfl⟩
  exacts [rfl, hab, hab.symm]

/-- The same demand, with the one or the other text in any of its places. -/
inductive Demand.Swaps (a b : String) : Demand → Demand → Prop
  | refresh : Swaps a b .refresh .refresh
  | acquire {versions spelt : List String} (h : List.Forall₂ (Swap a b) versions spelt) :
      Swaps a b (.acquire versions) (.acquire spelt)
  | compile {abandoned : Bool} {v w : String} {input : Json} (h : Swap a b v w) :
      Swaps a b (.compile abandoned v input) (.compile abandoned w input)

theorem Demand.Swaps.respelled_eq {demand second : Demand} (h : demand.Swaps a b second)
    (hab : spelling a = spelling b) : demand.respelled = second.respelled := by
  cases h with
  | refresh => rfl
  | acquire h =>
    refine congrArg Demand.acquire ?_
    induction h with
    | nil => rfl
    | cons hhead _ ih => rw [List.map_cons, List.map_cons, hhead.spelling_eq hab, ih]
  | compile h => rw [respelled, respelled, h.spelling_eq hab]

theorem Download.hasSucceeded_iff {d : Download} :
    d.hasSucceeded ↔ ∃ path, d.outcome = some (.ok path) := by
  obtain ⟨version, kind, path, outcome⟩ := d
  rcases outcome with _ | (_ | _) <;> simp [hasSucceeded]

namespace Sharing

/-- What is under way or done is not begun again, whoever asks for it and in what spelling. -/
theorem Invariant.request_shared {files : Files} {events : List Event} {s : Sharing}
    (h : Invariant files events s) {version : String} {kind : BuildKind} {d : Download}
    (hkind : s.known.classify version = .ok kind) (hd : d ∈ s.cache.downloads)
    (hpath : s.cache.pathOf kind version = .ok d.path) (hlive : d.isRunning ∨ d.hasSucceeded) :
    (s.cache.request s.known version).2 = s.cache := by
  obtain ⟨n, hn⟩ := List.mem_iff_getElem?.mp hd
  rcases s.cache.request_both s.known (Eq.refl (spelling version)) with
    ⟨_, hr, -⟩ | ⟨_, path, hk, hp, hf, hr, -⟩
  · rw [hr]
  · obtain rfl := Except.ok.inj (hk.symm.trans hkind)
    obtain rfl := Except.ok.inj (hp.symm.trans hpath)
    -- What is under way can be joined, and the file of what is done would have been seen.
    rcases hlive with hrun | hdone
    · have hin : Assoc.get? s.cache.inFlight d.path.fileName = some n :=
        h.shared hn (h.notMem_forgotten hn hrun)
      rw [hr, Cache.join, hin]
    · obtain ⟨path, hpath⟩ := Download.hasSucceeded_iff.mp hdone
      obtain ⟨rfl, hwhole⟩ := h.fetched hn hpath
      exact absurd (Files.entry?_of_present hf) hwhole.entry_ne_none

end Sharing

/-- Two spellings of a version that can be put in each other's place. -/
structure Interchangeable (a b : String) : Prop where
  /-- The catalog knows both or neither, and runs them alike. -/
  catalog : ∀ known : Snapshot,
    known.exists? a = known.exists? b ∧ known.classify a = known.classify b
  /-- They have one file and so one entry among the downloads under way. -/
  place : ∀ (cache : Cache) (kind : BuildKind),
    ∃ path, cache.pathOf kind a = .ok path ∧ cache.pathOf kind b = .ok path
  address : ∀ (cache : Cache) (d : Download),
    cache.urlOf { d with version := a } = cache.urlOf { d with version := b }
  ticket : ∀ (cache : Cache) (known : Snapshot),
    (cache.request known a).1 = (cache.request known b).1 ∧
      (cache.request known a).2.respelled = (cache.request known b).2.respelled
  /-- After a request for the one, a request for the other begins nothing. -/
  again : ∀ (cache : Cache) (known : Snapshot),
    (cache.request known a).2.request known b = cache.request known a
  /-- Nothing is downloaded for the one that is under way or done for the other, whatever
  happened before. -/
  shared : ∀ known root source files events,
    let s := (Sharing.start known root source files).run events
    ∀ d ∈ s.cache.downloads, ∀ kind, s.known.classify b = .ok kind →
      s.cache.pathOf kind a = .ok d.path → d.isRunning ∨ d.hasSucceeded →
        (s.cache.request s.known b).2 = s.cache
  /-- Neither is told to be no version: not at once in any state, and not in the end. -/
  accepted : ∀ (cache : Cache) (known : Snapshot) (failure : Failure),
    (cache.request known a).1 = .ready (.error failure) → failure.failureClass ≠ .value
  served : ∀ known root source files events,
    let s := (Sharing.start known root source files).run events
    ∀ c ∈ s.callers, c.version = a → ∀ failure,
      s.cache.answer? c.ticket = some (.error failure) → failure.failureClass ≠ .value
  acquire : ∀ {σ : Type} (around : Surroundings σ) (broker : Broker),
    (broker.acquire around a).1.map respelledAnswer =
        (broker.acquire around b).1.map respelledAnswer ∧
      (broker.acquire around a).2.1 = (broker.acquire around b).2.1 ∧
      (broker.acquire around a).2.2.Alike (broker.acquire around b).2.2
  /-- The document that is handed on is the same. -/
  admission : ∀ (broker : Broker) (input : Json),
    (broker.admission a input).map (fun admitted => (admitted.kind, admitted.document)) =
      (broker.admission b input).map fun admitted => (admitted.kind, admitted.document)
  compile : ∀ {σ : Type} (around : Surroundings σ) (broker : Broker) (abandoned : Bool)
    (input : Json), let first := broker.compile around abandoned a input
    let second := broker.compile around abandoned b input
    first.Alike second ∧ first.ending.result? = second.ending.result?
  /-- Nor does it show later which of the two was used at any time. -/
  runs : ∀ {σ : Type} (broker : Broker) (demands spelt : List (Surroundings σ × Demand)),
    List.Forall₂ (fun d e => d.1 = e.1 ∧ d.2.Swaps a b e.2) demands spelt →
      (broker.serveAll demands).1.map Reply.respelled =
          (broker.serveAll spelt).1.map Reply.respelled ∧
        (broker.serveAll demands).2.Alike (broker.serveAll spelt).2

theorem interchangeable_of_parse {v : CompilerVersion} (ha : CompilerVersion.parse a = .ok v)
    (hb : CompilerVersion.parse b = .ok v) : Interchangeable a b := by
  have hab : spelling a = spelling b := CompilerVersion.spelling_congr ha hb
  constructor
  case catalog => exact fun known => ⟨known.exists?_congr hab, known.classify_congr hab⟩
  case place =>
    intro cache kind
    have hpath : cache.pathOf kind a = .ok (cache.root.child
        (Artifact.nameOf cache.source.platform kind v.canonical)) := by
      rw [Cache.pathOf, Artifact.name_of_parse ha]
      rfl
    exact ⟨_, hpath, (cache.pathOf_congr kind hab).symm.trans hpath⟩
  case address =>
    intro cache d
    simp only [Cache.urlOf, Artifact.name_congr _ _ hab]
  case ticket =>
    exact fun cache known =>
      ⟨cache.request_ticket known hab, (Cache.request_alike known rfl hab).2⟩
  case again => exact fun cache known => cache.request_again known hab
  case shared =>
    intro known root source files events s d hd kind hkind hpath hlive
    have h : Sharing.Invariant files events s :=
      ((Sharing.Invariant.of_start known root source files).run events).1
    exact h.request_shared hkind hd ((s.cache.pathOf_congr kind hab).symm.trans hpath) hlive
  case accepted =>
    intro cache known failure h
    rcases Cache.failureClass_of_request h with rfl | rfl <;> decide
  case served =>
    intro known root source files events s c hc _ failure hfailure
    have h : Sharing.Invariant files events s :=
      ((Sharing.Invariant.of_start known root source files).run events).1
    have hempty : (Sharing.start known root source files).cache.FailsAsDownloads :=
      fun d hd => absurd hd List.not_mem_nil
    exact (h.ends hc hfailure).failureClass_ne_value (Sharing.failsAsDownloads_run hempty events)
  case acquire => exact fun around broker => (Broker.Alike.refl broker).acquire around hab
  case admission =>
    intro broker input
    rcases (Broker.Alike.refl broker).admission hab input with
      ⟨failure, h, hs⟩ | ⟨first, second, h, hs, halike⟩
    · rw [h, hs]
    · rw [h, hs]
      simp only [Except.map, halike.kind, halike.document]
  case compile =>
    intro σ around broker abandoned input
    have h := (Broker.Alike.refl broker).compile around abandoned hab input
    exact ⟨h, Ending.result?_congr h.ending⟩
  case runs =>
    intro σ broker demands spelt h
    refine (Broker.Alike.refl broker).serveAll ?_
    induction h with
    | nil => rfl
    | cons hhead _ ih =>
      rw [List.map_cons, List.map_cons, hhead.1, hhead.2.respelled_eq hab, ih]

theorem interchangeable_with_blanks_and_zeros :
    let v : CompilerVersion := ⟨0, 8, 20, none, some "commit.a1b79de6"⟩
    CompilerVersion.parse "v0.8.20+commit.a1b79de6" = .ok v ∧
    CompilerVersion.parse " ٠.08.٢0+commit.a1b79de6\n" = .ok v ∧
    Interchangeable "v0.8.20+commit.a1b79de6" " ٠.08.٢0+commit.a1b79de6\n" := by
  intro v
  have ha : CompilerVersion.parse "v0.8.20+commit.a1b79de6" = .ok v := by decide
  have hb : CompilerVersion.parse " ٠.08.٢0+commit.a1b79de6\n" = .ok v := by decide
  exact ⟨ha, hb, interchangeable_of_parse ha hb⟩

end SolcDispatch
