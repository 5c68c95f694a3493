import SolcDispatch.Broker.Basic
import SolcDispatch.Proofs.Cache.Tickets

/-! Asking for a build while no other download runs. What it leaves on disk besides directories
is the whole build or nothing, whichever file operation is refused. -/

namespace SolcDispatch

/-- The content and the mode of a file. -/
def Files.file? (files : Files) (path : FilePath) : Option (Text.Bytes × Nat) :=
  match files.entry? path with
  | some (.file content mode) => some (content, mode)
  | _ => none

theorem Files.file?_withDirectories (refused : WriteStep → Bool) (files : Files)
    (path other : FilePath) :
    Files.file? (files.withDirectories refused path) other = files.file? other := by
  rcases Files.entry?_withDirectories_cases refused files path other with he | ⟨hnone, -, he⟩
  · rw [Files.file?, he, Files.file?]
  · rw [Files.file?, he, Files.file?, hnone]

namespace Cache

/-- No download runs, and none is waited for. -/
structure IsIdle (cache : Cache) : Prop where
  ended : ∀ d ∈ cache.downloads, d.isRunning = false
  forgotten : cache.inFlight = []

/-- Directories on the way to where a build of the version belongs. -/
def OnWay (cache : Cache) (version : String) (directory : FilePath) : Prop :=
  ∃ kind path, cache.pathOf kind version = .ok path ∧ directory ∈ Files.ancestry path.parent

/-- What the files of a cache hold under a path is what they held before, or a directory made
on the way to a build. -/
structure Keeps (cache : Cache) (version : String) (after : Files) (other : FilePath) : Prop where
  file : after.file? other = cache.files.file? other
  entry : after.entry? other = cache.files.entry? other ∨ cache.files.entry? other = none ∧
    after.entry? other = some .directory ∧ cache.OnWay version other

def stored (kind : BuildKind) (r : Response) : Text.Bytes × Nat :=
  match kind with
  | .scripted => (Text.utf8 (Artifact.keptSource r.text), 0o600)
  | .native => (r.body, 0o755)

variable {cache : Cache} {version : String} {kind : BuildKind} {path other : FilePath}
  {refused : WriteStep → Bool} {files : Files} {d : Download}

theorem keeps_self (cache : Cache) (version : String) (other : FilePath) :
    cache.Keeps version cache.files other := ⟨rfl, .inl rfl⟩

theorem Keeps.of_entry?_eq {after : Files} (h : cache.Keeps version files other)
    (he : after.entry? other = files.entry? other) : cache.Keeps version after other := by
  have hfile : after.file? other = files.file? other := by rw [Files.file?, he, Files.file?]
  exact ⟨hfile.trans h.file, he ▸ h.entry⟩

theorem keeps_withDirectories (hpath : cache.pathOf kind version = .ok path)
    (refused : WriteStep → Bool) (other : FilePath) :
    cache.Keeps version (cache.files.withDirectories refused path) other := by
  refine ⟨cache.files.file?_withDirectories refused path other, ?_⟩
  rcases Files.entry?_withDirectories_cases refused cache.files path other with
    he | ⟨hnone, hway, he⟩
  · exact .inl he
  · exact .inr ⟨hnone, he, kind, path, hpath, hway⟩

theorem kept_eq_stored (kind : BuildKind) (r : Response) :
    ((kept kind r).1, (kept kind r).2.getD Files.temporaryMode) = stored kind r := by
  cases kind with
  | scripted => simp only [kept, stored, Option.getD_none, Files.temporaryMode]
  | native => simp only [kept, stored, Option.getD_some, executableMode]

theorem result_of_write_ok {r : Response} (hstatus : r.status = 200)
    (h : (files.write refused d.path (kept d.kind r).1 (kept d.kind r).2).1 = .ok ()) :
    result refused files d (.response r) = (some (.ok d.path),
      (files.write refused d.path (kept d.kind r).1 (kept d.kind r).2).2) := by
  rcases hwrite : files.write refused d.path (kept d.kind r).1 (kept d.kind r).2 with
    ⟨failure | done, after⟩
  · rw [hwrite] at h
    cases h
  · simp only [result, hstatus, if_true, hwrite]
    rfl

/-- A good response is stored, unless the file system refuses. -/
theorem result_good_cases (refused : WriteStep → Bool) (files : Files) (d : Download) {r : Response}
    (hstatus : r.status = 200) :
    result refused files d (.response r) =
      (some (.error .internal), files.withDirectories refused d.path) ∨
    result refused files d (.response r) = (some (.ok d.path),
      (files.withDirectories refused d.path).put d.path
        (.file (stored d.kind r).1 (stored d.kind r).2)) := by
  rw [← kept_eq_stored]
  simp only [result, hstatus, if_true]
  obtain he | he := files.write_cases refused d.path (kept d.kind r).1 (kept d.kind r).2
  · exact .inl (by rw [he]; rfl)
  · exact .inr (by rw [he]; rfl)

/-- What a download comes to: nothing yet, an error that leaves the files alone, or a file. -/
theorem result_spec (refused : WriteStep → Bool) (fetched : Fetched)
    (hpath : cache.pathOf d.kind d.version = .ok d.path) :
    match result refused cache.files d fetched with
    | (none, after) => after = cache.files
    | (some (.error _), after) => ∀ other, cache.Keeps d.version after other
    | (some (.ok path), after) => path = d.path ∧ ∃ r, fetched = .response r ∧ r.status = 200 ∧
        after.file? d.path = some (stored d.kind r) ∧
        ∀ other, other ≠ d.path → cache.Keeps d.version after other := by
  cases fetched with
  | silence => rfl
  | failed reason => exact keeps_self cache d.version
  | response r =>
    by_cases hstatus : r.status = 200
    · obtain he | he := result_good_cases refused cache.files d hstatus
      · rw [he]
        exact keeps_withDirectories hpath refused
      · rw [he]
        have hne := (isPath_of_pathOf hpath).parts_ne_nil
        refine ⟨rfl, r, rfl, hstatus, ?_, ?_⟩
        · rw [Files.file?, Files.entry?_put_self hne]
        · intro other hother
          exact (keeps_withDirectories hpath refused other).of_entry?_eq (Files.entry?_put_ne hother)
    · simp only [result, if_neg hstatus]
      exact keeps_self cache d.version

end Cache

namespace Broker

variable {σ : Type} {around : Surroundings σ} {cache : Cache} {b : Broker} {version : String}
  {kind : BuildKind} {path : FilePath}

def downloadNext (around : Surroundings σ) (all : List String × Cache) (n : Nat) :
    List String × Cache :=
  (all.1 ++ (download around all.2 n).1, (download around all.2 n).2)

theorem downloadAll_eq (around : Surroundings σ) (cache : Cache) :
    downloadAll around cache =
      (List.range cache.downloads.length).foldl (downloadNext around) ([], cache) := rfl

theorem foldl_downloadNext_of_ended (around : Surroundings σ) {ns : List Nat} (paths : List String)
    (h : ∀ n ∈ ns, ∀ d, cache.downloads[n]? = some d → d.isRunning = false) :
    ns.foldl (downloadNext around) (paths, cache) = (paths, cache) := by
  induction ns with
  | nil => rfl
  | cons n ns ih =>
    have hnext : downloadNext around (paths, cache) n = (paths, cache) := by
      unfold downloadNext download
      cases hd : cache.downloads[n]? with
      | none => simp
      | some d => simp [h n List.mem_cons_self d hd]
    rw [List.foldl_cons, hnext]
    exact ih fun m hm => h m (List.mem_cons_of_mem _ hm)

theorem downloadAll_of_idle (around : Surroundings σ) (h : cache.IsIdle) :
    downloadAll around cache = ([], cache) :=
  foldl_downloadNext_of_ended around [] fun _ _ _ hd => h.ended _ (List.mem_of_getElem? hd)

theorem downloadAll_begun (around : Surroundings σ) (h : cache.IsIdle) (d : Download) :
    downloadAll around (Sharing.begun cache d) =
      download around (Sharing.begun cache d) cache.downloads.length := by
  have hbefore : ∀ n ∈ List.range cache.downloads.length, ∀ e,
      (Sharing.begun cache d).downloads[n]? = some e → e.isRunning = false := by
    intro n hn e he
    rw [Sharing.begun, List.getElem?_append_left (List.mem_range.mp hn)] at he
    exact h.ended e (List.mem_of_getElem? he)
  have hlength : (Sharing.begun cache d).downloads.length = cache.downloads.length + 1 := by
    simp [Sharing.begun]
  rw [downloadAll_eq, hlength, List.range_succ, List.foldl_append,
    foldl_downloadNext_of_ended around [] hbefore, List.foldl_cons, List.foldl_nil, downloadNext,
    List.nil_append]

/-- The cache after a download that began when no other ran. It is forgotten once it has come
to an end. -/
def afterDownload (cache : Cache) (d : Download) (outcome : Option (Except Failure FilePath))
    (files : Files) : Cache :=
  { cache with
    files
    downloads := cache.downloads ++ [{ d with outcome }]
    inFlight := if outcome.isSome then [] else [(d.name, cache.downloads.length)] }

theorem download_begun (around : Surroundings σ) (h : cache.IsIdle) {d : Download}
    (hrun : d.outcome = none) {fetched : Fetched} {paths : List String}
    {outcome : Option (Except Failure FilePath)} {files : Files}
    (hget : around.depot.get around.followsRedirections (cache.urlOf d) = (fetched, paths))
    (hresult : Cache.result around.refused cache.files d fetched = (outcome, files)) :
    download around (Sharing.begun cache d) cache.downloads.length =
      (paths, afterDownload cache d outcome files) := by
  have hrunning : d.isRunning = true := by rw [Download.isRunning, hrun]; rfl
  have hurl : (Sharing.begun cache d).urlOf d = cache.urlOf d := rfl
  have hfiles : (Sharing.begun cache d).files = cache.files := rfl
  have hin : (Sharing.begun cache d).inFlight = [(d.name, cache.downloads.length)] := by
    rw [Sharing.begun, h.forgotten]
    rfl
  have hset : (cache.downloads ++ [d]).set cache.downloads.length { d with outcome } =
      cache.downloads ++ [{ d with outcome }] := by
    rw [List.set_append_right _ _ (Nat.le_refl _), Nat.sub_self]
    rfl
  have hdownloads : (Sharing.begun cache d).downloads = cache.downloads ++ [d] := rfl
  simp only [download, hrunning, if_true, hurl, hget, Cache.complete, hfiles, hresult,
    hdownloads, hset, List.getElem?_concat_length, Option.any_some, hin]
  cases outcome with
  | none => rfl
  | some outcome => simp [Download.isRunning, Cache.forget, afterDownload, Assoc.without, Sharing.begun]

theorem acquire_of_refused (around : Surroundings σ) (h : b.cache.IsIdle)
    {answer : Except Failure FilePath}
    (hrequest : b.cache.request b.known version = (.ready answer, b.cache)) :
    b.acquire around version = (some answer, [], b) := by
  simp only [acquire, hrequest, downloadAll_of_idle around h, Cache.answer?]

def newDownload (version : String) (kind : BuildKind) (path : FilePath) : Download :=
  { version, kind, path }

theorem acquire_of_absent (around : Surroundings σ) (h : b.cache.IsIdle) {fetched : Fetched}
    {paths : List String} {outcome : Option (Except Failure FilePath)} {files : Files}
    (hrequest : b.cache.request b.known version = b.cache.join version kind path)
    (hget : around.depot.get around.followsRedirections
      (b.cache.urlOf (newDownload version kind path)) = (fetched, paths))
    (hresult : Cache.result around.refused b.cache.files (newDownload version kind path) fetched =
      (outcome, files)) :
    b.acquire around version = (outcome, paths,
      { b with cache := afterDownload b.cache (newDownload version kind path) outcome files }) := by
  have hjoin : b.cache.request b.known version =
      (.waiting b.cache.downloads.length,
        Sharing.begun b.cache (newDownload version kind path)) := by
    have hin : Assoc.get? b.cache.inFlight path.fileName = none := by
      rw [h.forgotten]
      rfl
    rw [hrequest, Cache.join, hin]
    rfl
  have hlast : (afterDownload b.cache (newDownload version kind path) outcome files).answer?
      (.waiting b.cache.downloads.length) = outcome := by
    simp [Cache.answer?, afterDownload]
  simp only [acquire, hjoin, downloadAll_begun around h, download_begun around h rfl hget hresult,
    hlast]

theorem isIdle_afterDownload (h : cache.IsIdle) (d : Download) (outcome : Except Failure FilePath)
    (files : Files) : (afterDownload cache d (some outcome) files).IsIdle where
  ended e he := by
    rcases List.mem_append.mp he with he | he
    · exact h.ended e he
    · rw [List.mem_singleton.mp he]
      rfl
  forgotten := rfl

/-- The build of a version, if it is known and nothing stands for it, is downloaded the next
time it is asked for. -/
def StartsAfresh (b : Broker) (version : String) (after : Broker) : Prop :=
  ∀ kind path, b.known.classify version = .ok kind → b.cache.pathOf kind version = .ok path →
    b.cache.files.present path = .ok false → ∀ {τ : Type} (later : Surroundings τ),
      (after.acquire later version).2.1 = (later.depot.get later.followsRedirections
        (b.cache.urlOf (newDownload version kind path))).2 ∧
      (after.acquire later version).2.2.cache.downloads.length = after.cache.downloads.length + 1

/-- What asking for a build comes to, with the paths that the depot was asked for. -/
inductive Acquired (around : Surroundings σ) (b : Broker) (version : String) :
    Option (Except Failure FilePath) × List String × Broker → Prop
  | silent {paths : List String} {after : Broker} :
      after.cache.files = b.cache.files → Acquired around b version (none, paths, after)
  | failed {failure : Failure} {paths : List String} {after : Broker} :
      (∀ other, b.cache.Keeps version after.cache.files other) → after.cache.IsIdle →
      StartsAfresh b version after → Acquired around b version (some (.error failure), paths, after)
  | found {kind : BuildKind} {path : FilePath} :
      b.known.classify version = .ok kind → b.cache.pathOf kind version = .ok path →
      (b.cache.files.entry? path).isSome → Acquired around b version (some (.ok path), [], b)
  | stored {kind : BuildKind} {path : FilePath} {r : Response} {paths : List String}
      {after : Broker} :
      b.known.classify version = .ok kind → b.cache.pathOf kind version = .ok path →
      b.cache.files.entry? path = none →
      around.depot.get around.followsRedirections
        (b.cache.urlOf (newDownload version kind path)) = (.response r, paths) → r.status = 200 →
      after.cache.files.file? path = some (Cache.stored kind r) →
      (∀ other, other ≠ path → b.cache.Keeps version after.cache.files other) →
      after.cache.IsIdle → Acquired around b version (some (.ok path), paths, after)

theorem acquire_downloads (h : b.cache.IsIdle) (hkind : b.known.classify version = .ok kind)
    (hpath : b.cache.pathOf kind version = .ok path)
    (habsent : b.cache.files.present path = .ok false) (around : Surroundings σ) :
    (b.acquire around version).2.1 = (around.depot.get around.followsRedirections
        (b.cache.urlOf (newDownload version kind path))).2 ∧
      (b.acquire around version).2.2.cache.downloads.length = b.cache.downloads.length + 1 := by
  have hrequest : b.cache.request b.known version = b.cache.join version kind path := by
    rw [Cache.request_eq hkind hpath, habsent]
  rw [acquire_of_absent around h hrequest rfl rfl]
  exact ⟨rfl, by simp [afterDownload]⟩

/-- Nothing stands for the build after a failure either. -/
theorem present_of_keeps {files : Files} (hpath : b.cache.pathOf kind version = .ok path)
    (habsent : b.cache.files.present path = .ok false) (h : b.cache.Keeps version files path) :
    files.present path = .ok false := by
  have hnone : files.entry? path = none := by
    rcases h.entry with he | ⟨-, -, other, second, hsecond, hway⟩
    · rw [he, Files.entry?_of_present habsent]
    · exact absurd hway
        ((Cache.isPath_of_pathOf hpath).notMem_ancestry (Cache.isPath_of_pathOf hsecond))
  rw [Files.present_of_ok habsent, hnone]
  rfl

theorem startsAfresh_of_keeps {after : Broker} (hidle : after.cache.IsIdle)
    (hkeeps : ∀ other, b.cache.Keeps version after.cache.files other)
    (hknown : after.known = b.known) (hroot : after.cache.root = b.cache.root)
    (hsource : after.cache.source = b.cache.source) : StartsAfresh b version after := by
  intro kind path hkind hpath habsent τ later
  have hkind' : after.known.classify version = .ok kind := hknown ▸ hkind
  have hpath' : after.cache.pathOf kind version = .ok path := by
    rw [Cache.pathOf, hroot, hsource]
    exact hpath
  have hurl : after.cache.urlOf (newDownload version kind path) =
      b.cache.urlOf (newDownload version kind path) := by
    simp only [Cache.urlOf, hsource]
  rw [← hurl]
  exact acquire_downloads hidle hkind' hpath' (present_of_keeps hpath habsent (hkeeps path)) later

theorem acquired_of_absent (around : Surroundings σ) (h : b.cache.IsIdle)
    (hkind : b.known.classify version = .ok kind) (hpath : b.cache.pathOf kind version = .ok path)
    (habsent : b.cache.files.present path = .ok false) :
    Acquired around b version (b.acquire around version) := by
  have hrequest : b.cache.request b.known version = b.cache.join version kind path := by
    rw [Cache.request_eq hkind hpath, habsent]
  have hnone := Files.entry?_of_present habsent
  rcases hget : around.depot.get around.followsRedirections
    (b.cache.urlOf (newDownload version kind path)) with ⟨fetched, paths⟩
  have hspec := Cache.result_spec around.refused fetched
    (show b.cache.pathOf (newDownload version kind path).kind _ = .ok _ from hpath)
  rcases hresult : Cache.result around.refused b.cache.files (newDownload version kind path) fetched
    with ⟨outcome, files⟩
  rw [hresult] at hspec
  rw [acquire_of_absent around h hrequest hget hresult]
  match outcome, hspec with
  | none, hfiles => exact .silent hfiles
  | some (.error failure), hkeeps =>
    have hidle := isIdle_afterDownload h (newDownload version kind path) (.error failure) files
    exact .failed hkeeps hidle (startsAfresh_of_keeps hidle hkeeps rfl rfl rfl)
  | some (.ok landed), ⟨hlanded, r, hr, hstatus, hfile, hkeeps⟩ =>
    subst hlanded hr
    exact .stored hkind hpath hnone hget hstatus hfile hkeeps (isIdle_afterDownload h _ _ _)

/-- A broker that knows one native build, with another file in its cache. -/
def furnished : Broker where
  known := { native := ["v0.8.20"], loaded := true }
  cache := {
    root := ⟨"/", ["builds"]⟩
    source := ⟨"https://depot", "linux-amd64", ⟨0, 6, 0, none, none⟩⟩
    files := [(⟨"/", ["builds"]⟩, .directory), (⟨"/", ["builds", "notes"]⟩, .file [7] 0o644)] }
  traces := { capacity := 1 }
  timeout := .ofInt 1

/-- A depot that has the build, and a file system that refuses to rename files. -/
def renameless : Surroundings Unit where
  depot := [("/linux-amd64/solc-linux-amd64-v0.8.20", .response { body := [1, 2, 3] })]
  followsRedirections := false
  loader := {
    load := fun _ _ => .ok (.modern, ())
    answer := fun _ s => (.ok "", s)
    diagnostics := fun _ => "" }
  refused := fun step => step == .rename

end Broker

end SolcDispatch
