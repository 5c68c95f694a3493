import SolcDispatch.Proofs.Artifact.Path
import SolcDispatch.Proofs.Assoc
import SolcDispatch.Proofs.Catalog.Refreshing
import SolcDispatch.Proofs.Writing

/-! A cache that many callers use at the same time, step by step. A download that came to
its end is forgotten in a later step, and in between anything may happen. -/

namespace SolcDispatch

/-- One who asked for a version, and what was known then. -/
structure Caller where
  version : String
  known : Snapshot
  ticket : Ticket
  cancelled : Bool := false

/-- A cache with all who ever asked and the downloads that are forgotten. -/
structure Sharing where
  known : Snapshot
  cache : Cache
  callers : List Caller := []
  forgotten : List Nat := []

namespace Sharing

inductive Event
  | refresh (known : Snapshot)
  | ask (version : String)
  | complete (download : Nat) (refused : WriteStep → Bool) (fetched : Fetched)
  | forget (download : Nat)
  | cancel (caller : Nat)

def start (known : Snapshot) (root : FilePath) (source : ReleaseSource) (files : Files) : Sharing :=
  { known, cache := { root, source, files } }

def step (s : Sharing) : Event → Sharing
  | .refresh known => { s with known }
  | .ask version =>
    let (ticket, cache) := s.cache.request s.known version
    { s with cache, callers := s.callers ++ [{ version, known := s.known, ticket }] }
  | .complete n refused fetched => { s with cache := s.cache.complete refused n fetched }
  | .forget n =>
    match s.cache.downloads[n]? with
    | none => s
    | some d =>
      if d.isRunning || s.forgotten.contains n then s
      else { s with cache := s.cache.forget d.name, forgotten := n :: s.forgotten }
  | .cancel n => { s with callers := s.callers.modify n fun c => { c with cancelled := true } }

def run (s : Sharing) (events : List Event) : Sharing := events.foldl step s

@[simp] theorem run_nil (s : Sharing) : s.run [] = s := rfl

@[simp] theorem run_cons (s : Sharing) (event : Event) (events : List Event) :
    s.run (event :: events) = (s.step event).run events := rfl

theorem run_append (s : Sharing) (before after : List Event) :
    s.run (before ++ after) = (s.run before).run after := List.foldl_append

end Sharing

namespace Cache

/-- What stays of a cache from one step to the next: its downloads stay at their places,
and an outcome stays once it is there. -/
structure Grows (a b : Cache) : Prop where
  root : b.root = a.root
  source : b.source = a.source
  downloads : ∀ {n : Nat} {d : Download}, a.downloads[n]? = some d →
    ∃ outcome, b.downloads[n]? = some { d with outcome } ∧ (d.outcome = none ∨ outcome = d.outcome)

theorem Grows.refl (a : Cache) : a.Grows a := ⟨rfl, rfl, fun hd => ⟨_, hd, .inr rfl⟩⟩

theorem Grows.trans {a b c : Cache} (h : a.Grows b) (ho : b.Grows c) : a.Grows c := by
  refine ⟨ho.root.trans h.root, ho.source.trans h.source, fun hd => ?_⟩
  obtain ⟨first, hfirst, hf⟩ := h.downloads hd
  obtain ⟨second, hsecond, hs⟩ := ho.downloads hfirst
  refine ⟨second, hsecond, ?_⟩
  rcases hf with hf | rfl
  · exact .inl hf
  · exact hs

theorem pathOf_eq_ok (cache : Cache) {known : Snapshot} {version : String} {kind : BuildKind}
    (h : known.classify version = .ok kind) : ∃ path, cache.pathOf kind version = .ok path := by
  cases hp : CompilerVersion.parse version with
  | error _ =>
    have hnone : CompilerVersion.parse? version = none := by
      rw [CompilerVersion.parse?, hp]
      rfl
    rw [Catalog.classify_of_parse?_none hnone] at h
    cases h
  | ok v =>
    rw [pathOf, Artifact.name, hp]
    exact ⟨_, rfl⟩

theorem isPath_of_pathOf {cache : Cache} {version : String} {kind : BuildKind} {path : FilePath}
    (h : cache.pathOf kind version = .ok path) :
    Artifact.IsPath cache.root cache.source.platform path := ⟨kind, version, h⟩

/-- The path of the build that runs a known version. -/
def Locates (cache : Cache) (known : Snapshot) (version : String) (path : FilePath) : Prop :=
  ∃ kind, known.classify version = .ok kind ∧ cache.pathOf kind version = .ok path

theorem Locates.isPath {cache : Cache} {known : Snapshot} {version : String} {path : FilePath}
    (h : cache.Locates known version path) :
    Artifact.IsPath cache.root cache.source.platform path := by
  obtain ⟨kind, -, hp⟩ := h
  exact isPath_of_pathOf hp

/-- Why a build is refused at once: its version is not known, or its path is too long to be that
of a file. -/
def Refuses (cache : Cache) (known : Snapshot) (version : String) (failure : Failure) : Prop :=
  failure = .unknownVersion ∧ known.classify version = .error .unknownVersion ∨
    failure = .internal ∧ ∃ path, cache.Locates known version path ∧ Files.isOverlong path

theorem classify_error {known : Snapshot} {version : String} {failure : Failure}
    (h : known.classify version = .error failure) : failure = .unknownVersion := by
  unfold Snapshot.classify at h
  split at h
  · exact (Except.error.inj h).symm
  · split at h
    · cases h
    · split at h
      · cases h
      · exact (Except.error.inj h).symm

theorem request_eq {cache : Cache} {known : Snapshot} {version : String} {kind : BuildKind}
    {path : FilePath} (hk : known.classify version = .ok kind)
    (hp : cache.pathOf kind version = .ok path) :
    cache.request known version = match cache.files.present path with
      | .error failure => (.ready (.error failure), cache)
      | .ok true => (.ready (.ok path), cache)
      | .ok false => cache.join version kind path := by
  unfold request
  cases hpresent : cache.files.present path with
  | error failure => simp only [hk, hp, hpresent]
  | ok present => cases present <;> simp only [hk, hp, hpresent]

theorem request_cases (cache : Cache) (known : Snapshot) (version : String) :
    (∃ failure, cache.request known version = (.ready (.error failure), cache) ∧
      cache.Refuses known version failure) ∨
    ∃ kind path, known.classify version = .ok kind ∧ cache.pathOf kind version = .ok path ∧
      ((cache.files.entry? path).isSome ∧
          cache.request known version = (.ready (.ok path), cache) ∨
        cache.files.entry? path = none ∧
        cache.request known version = cache.join version kind path) := by
  cases hk : known.classify version with
  | error failure =>
    obtain rfl := classify_error hk
    refine .inl ⟨.unknownVersion, ?_, .inl ⟨rfl, hk⟩⟩
    rw [request, hk]
  | ok kind =>
    obtain ⟨path, hp⟩ := pathOf_eq_ok cache hk
    rw [request_eq hk hp]
    by_cases hlong : Files.isOverlong path
    · exact .inl ⟨.internal, by rw [Files.present_of_isOverlong hlong],
        .inr ⟨rfl, path, ⟨kind, hk, hp⟩, hlong⟩⟩
    · rw [Files.present_of_not_isOverlong hlong]
      refine .inr ⟨kind, path, rfl, hp, ?_⟩
      cases he : cache.files.entry? path with
      | none => exact .inr ⟨rfl, rfl⟩
      | some entry => exact .inl ⟨rfl, rfl⟩

/-- What a download that ends leaves behind: an error and no file, or the whole file of a
good response. -/
def Leaves (fetched : Fetched) (d : Download) (outcome : Except Failure FilePath)
    (files : Files) : Prop :=
  (∃ failure, outcome = .error failure) ∧ files.entry? d.path = none ∨
    outcome = .ok d.path ∧ ∃ r, fetched = .response r ∧ r.status = 200 ∧
      files.entry? d.path =
        some (.file (kept d.kind r).1 ((kept d.kind r).2.getD Files.temporaryMode))

theorem result_cases (refused : WriteStep → Bool) {files : Files} {d : Download} (fetched : Fetched)
    (hnone : files.entry? d.path = none) (hne : d.path.parts ≠ []) :
    result refused files d fetched = (none, files) ∨
    ∃ outcome after, result refused files d fetched = (some outcome, after) ∧
      Files.Adds d.path files after ∧ Leaves fetched d outcome after := by
  cases fetched with
  | silence => exact .inl rfl
  | failed reason =>
    exact .inr ⟨_, files, rfl, ⟨id, fun _ _ => rfl⟩, .inl ⟨⟨_, rfl⟩, hnone⟩⟩
  | response r =>
    right
    simp only [result]
    by_cases hs : r.status = 200
    · rw [if_pos hs]
      refine ⟨_, _, rfl, Files.write_adds hnone, ?_⟩
      rcases Files.entry?_write_self hne with ⟨hw, he⟩ | ⟨⟨failure, hw⟩, he⟩
      · rw [hw]
        exact .inr ⟨rfl, r, rfl, hs, he⟩
      · rw [hw]
        exact .inl ⟨⟨failure, rfl⟩, he.trans hnone⟩
    · rw [if_neg hs]
      exact ⟨_, files, rfl, ⟨id, fun _ _ => rfl⟩, .inl ⟨⟨_, rfl⟩, hnone⟩⟩

def ended (cache : Cache) (n : Nat) (d : Download) (outcome : Except Failure FilePath)
    (files : Files) : Cache :=
  { cache with files, downloads := cache.downloads.set n { d with outcome := some outcome } }

theorem complete_cases {cache : Cache} (refused : WriteStep → Bool) {n : Nat} (fetched : Fetched)
    (hfree : ∀ d ∈ cache.downloads, d.isRunning →
      cache.files.entry? d.path = none ∧ d.path.parts ≠ []) :
    cache.complete refused n fetched = cache ∨
    ∃ d outcome files, cache.downloads[n]? = some d ∧ d.isRunning ∧
      cache.complete refused n fetched = cache.ended n d outcome files ∧
      Files.Adds d.path cache.files files ∧ Leaves fetched d outcome files := by
  unfold complete
  cases hd : cache.downloads[n]? with
  | none => exact .inl rfl
  | some d =>
    by_cases hrun : d.isRunning
    · obtain ⟨hnone, hne⟩ := hfree d (List.mem_of_getElem? hd) hrun
      dsimp only
      rw [if_pos hrun]
      rcases result_cases refused fetched hnone hne with he | ⟨outcome, files, he, hadds, hl⟩
      · left
        have hself : { d with outcome := none } = d := by
          rw [← Option.isNone_iff_eq_none.mp hrun]
        obtain ⟨hn, rfl⟩ := List.getElem?_eq_some_iff.mp hd
        rw [he]
        dsimp only
        rw [hself, List.set_getElem_self]
      · right
        refine ⟨d, outcome, files, rfl, hrun, ?_, hadds, hl⟩
        rw [he]
        rfl
    · left
      dsimp only
      rw [if_neg hrun]

end Cache

end SolcDispatch
