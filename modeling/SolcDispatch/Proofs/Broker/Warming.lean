import SolcDispatch.Broker.Warm
import SolcDispatch.Proofs.Artifact.Temporary
import SolcDispatch.Proofs.Cache.Acquisition
import SolcDispatch.Proofs.Writing.Success

/-! Getting builds in advance, one after another. What comes of each is what would come of it
alone, so neither the answers nor the files depend on the order in which versions are named. -/

namespace SolcDispatch

namespace Depot

/-- Whatever is requested, an answer comes or fails to come. -/
def Responds (depot : Depot) : Prop := ∀ entry ∈ depot, entry.2 ≠ .silence

variable {depot : Depot}

instance : Decidable depot.Responds :=
  inferInstanceAs (Decidable (∀ entry ∈ depot, entry.2 ≠ .silence))

theorem Responds.answer_ne (h : depot.Responds) (path : String) : depot.answer path ≠ .silence := by
  unfold answer
  cases hget : Assoc.get? depot path with
  | none => simp
  | some fetched => exact h _ (Assoc.mem_of_get? hget)

theorem Responds.follow_ne (h : depot.Responds) (redirections : Nat) (url : String)
    (paths : List String) : (depot.follow redirections url paths).1 ≠ .silence := by
  induction redirections generalizing url paths with
  | zero =>
    rw [follow]
    cases hfetched : depot.answer (Address.path url) with
    | response r => cases hto : r.redirection? <;> simp [hto]
    | failed reason => simp
    | silence => exact absurd hfetched (h.answer_ne _)
  | succ redirections ih =>
    rw [follow]
    cases hfetched : depot.answer (Address.path url) with
    | response r =>
      cases hto : r.redirection? with
      | none => simp [hto]
      | some location =>
        simp only [hto]
        exact ih _ _
    | failed reason => simp
    | silence => exact absurd hfetched (h.answer_ne _)

theorem Responds.get_ne (h : depot.Responds) (follows : Bool) (url : String) :
    (depot.get follows url).1 ≠ .silence := by
  unfold get
  split
  · exact h.follow_ne maxRedirections url []
  · exact h.answer_ne (Address.path url)

end Depot

namespace Broker

variable {σ : Type} {around : Surroundings σ} {b c : Broker} {seen versions : List String}
  {version other : String} {kind second : BuildKind} {path place : FilePath} {r : Response}
  {entry : FileEntry} {outcome : Except Failure FilePath}

def fetch (around : Surroundings σ) (b : Broker) (version : String) (kind : BuildKind)
    (path : FilePath) : Fetched :=
  (around.depot.get around.followsRedirections (b.cache.urlOf (newDownload version kind path))).1

/-- A known build that is not there, and that the depot delivers. -/
structure Gains (around : Surroundings σ) (b : Broker) (version : String) (kind : BuildKind)
    (path : FilePath) (r : Response) : Prop where
  known : b.known.classify version = .ok kind
  placed : b.cache.pathOf kind version = .ok path
  absent : b.cache.files.present path = .ok false
  fetched : fetch around b version kind path = .response r
  good : r.status = 200

/-- What a build is on disk: its file, and the directories on the way. -/
def Places (kind : BuildKind) (path : FilePath) (r : Response) (place : FilePath)
    (entry : FileEntry) : Prop :=
  place = path ∧ entry = .file (Cache.stored kind r).1 (Cache.stored kind r).2 ∨
    place ∈ Files.ancestry path.parent ∧ entry = .directory

/-- What getting the build of a version adds to the files. -/
def Adds (around : Surroundings σ) (b : Broker) (version : String) (place : FilePath)
    (entry : FileEntry) : Prop :=
  ∃ kind path r, Gains around b version kind path r ∧ Places kind path r place entry

/-- What stands under a path once the builds of versions are there. -/
def Holds (around : Surroundings σ) (b : Broker) (versions : List String) (place : FilePath)
    (entry : FileEntry) : Prop :=
  b.cache.files.entry? place = some entry ∨ b.cache.files.entry? place = none ∧
    ∃ version ∈ versions, Adds around b version place entry

/-- The build of a version is written where the depot delivers it. -/
def Writes (around : Surroundings σ) (b : Broker) (version : String) : Prop :=
  ∀ kind path r, Gains around b version kind path r →
    (b.cache.files.write around.refused path (Cache.kept kind r).1 (Cache.kept kind r).2).1 = .ok ()

/-- The build of a version belongs under a path that is too long. -/
def Overlong (b : Broker) (version : String) : Prop :=
  ∃ path, b.cache.Locates b.known version path ∧ Files.isOverlong path

def isWritten (around : Surroundings σ) (b : Broker) (version : String) : Bool :=
  match b.known.classify version with
  | .error _ => true
  | .ok kind => match b.cache.pathOf kind version with
    | .error _ => true
    | .ok path => match b.cache.files.present path, fetch around b version kind path with
      | .ok false, .response r => r.status != 200 ||
        (b.cache.files.write around.refused path (Cache.kept kind r).1
          (Cache.kept kind r).2).1.isOk
      | _, _ => true

theorem writes_of_isWritten (h : isWritten around b version = true) : Writes around b version := by
  rintro kind path r ⟨hkind, hpath, habsent, hfetched, hstatus⟩
  unfold isWritten at h
  rw [hkind] at h
  dsimp only at h
  rw [hpath] at h
  dsimp only at h
  rw [habsent, hfetched] at h
  dsimp only at h
  rw [hstatus, bne_self_eq_false, Bool.false_or] at h
  cases hwrite : (b.cache.files.write around.refused path (Cache.kept kind r).1
      (Cache.kept kind r).2).1 with
  | ok done => rfl
  | error failure =>
    rw [hwrite] at h
    cases h

/-- Where a path is too long, nothing is written. -/
theorem writes_of_overlong (h : b.Overlong version) : Writes around b version := by
  obtain ⟨path, ⟨kind, hkind, hpath⟩, hlong⟩ := h
  rintro second place r hgains
  obtain rfl : kind = second := Except.ok.inj (hkind.symm.trans hgains.known)
  obtain rfl : path = place := Except.ok.inj (hpath.symm.trans hgains.placed)
  have habsent := hgains.absent
  rw [Files.present_of_isOverlong hlong] at habsent
  cases habsent

/-- A broker in the state to which getting the builds of versions brings another. -/
structure Reached (around : Surroundings σ) (b : Broker) (versions : List String) (c : Broker) :
    Prop where
  known : c.known = b.known
  root : c.cache.root = b.cache.root
  source : c.cache.source = b.cache.source
  idle : c.cache.IsIdle
  entry : ∀ place entry, c.cache.files.entry? place = some entry ↔
    Holds around b versions place entry

theorem reached_nil (around : Surroundings σ) (h : b.cache.IsIdle) : Reached around b [] b :=
  ⟨rfl, rfl, rfl, h, fun place entry => by simp [Holds]⟩

theorem Reached.pathOf_eq (h : Reached around b seen c) (kind : BuildKind) (version : String) :
    c.cache.pathOf kind version = b.cache.pathOf kind version := by
  simp only [Cache.pathOf, h.root, h.source]

theorem Reached.fetch_eq (h : Reached around b seen c) :
    fetch around c version kind path = fetch around b version kind path := by
  simp only [fetch, Cache.urlOf, h.source]

theorem Reached.stays (h : Reached around b seen c)
    (hentry : b.cache.files.entry? place = some entry) :
    c.cache.files.entry? place = some entry := (h.entry place entry).mpr (.inl hentry)

theorem Reached.none_of_none (h : Reached around b seen c)
    (hnone : c.cache.files.entry? place = none) : b.cache.files.entry? place = none := by
  cases hentry : b.cache.files.entry? place with
  | none => rfl
  | some entry =>
    rw [h.stays hentry] at hnone
    cases hnone

/-- The path tells what is fetched, however the version is spelled. -/
theorem fetch_of_path (h : b.cache.pathOf kind version = .ok path)
    (ho : b.cache.pathOf kind other = .ok path) :
    fetch around b version kind path = fetch around b other kind path := by
  simp only [fetch, newDownload, Cache.urlOf, Cache.name_eq_of_pathOf h ho]

theorem Gains.eq_of_known {somewhere : FilePath} (h : Gains around b version second somewhere r)
    (hkind : b.known.classify version = .ok kind) (hpath : b.cache.pathOf kind version = .ok path) :
    second = kind ∧ somewhere = path := by
  obtain rfl : second = kind := Except.ok.inj (h.known.symm.trans hkind)
  exact ⟨rfl, Except.ok.inj (h.placed.symm.trans hpath)⟩

theorem Gains.adds_iff (h : Gains around b version kind path r) :
    Adds around b version place entry ↔ Places kind path r place entry := by
  refine ⟨?_, fun hplaces => ⟨kind, path, r, h, hplaces⟩⟩
  rintro ⟨second, somewhere, again, ho, hplaces⟩
  obtain ⟨rfl, rfl⟩ := ho.eq_of_known h.known h.placed
  obtain rfl : again = r := Fetched.response.inj (ho.fetched.symm.trans h.fetched)
  exact hplaces

/-- Only a build is ever added where a build belongs. -/
theorem Adds.gains (h : Adds around b version place entry)
    (hplace : b.cache.pathOf kind other = .ok place) :
    ∃ r, Gains around b version kind place r ∧
      entry = .file (Cache.stored kind r).1 (Cache.stored kind r).2 := by
  obtain ⟨second, path, r, hgains, ⟨rfl, rfl⟩ | ⟨hway, -⟩⟩ := h
  · obtain rfl := Cache.kind_of_pathOf hplace hgains.placed
    exact ⟨r, hgains, rfl⟩
  · exact absurd hway ((Cache.isPath_of_pathOf hplace).notMem_ancestry
      (Cache.isPath_of_pathOf hgains.placed))

/-- What is there of other builds does not matter to the writing of a build. -/
theorem Reached.agree (h : Reached around b seen c) (hpath : b.cache.pathOf kind version = .ok path)
    (hnone : c.cache.files.entry? path = none) :
    Files.Agree path b.cache.files c.cache.files := by
  have hbuild := Cache.isPath_of_pathOf hpath
  have hcases (place : FilePath) : c.cache.files.entry? place = b.cache.files.entry? place ∨
      ∃ version ∈ seen, ∃ entry, c.cache.files.entry? place = some entry ∧
        Adds around b version place entry := by
    cases hentry : c.cache.files.entry? place with
    | none => exact .inl (h.none_of_none hentry).symm
    | some entry =>
      rcases (h.entry place entry).mp hentry with hsame | ⟨-, version, hversion, hadds⟩
      · exact .inl hsame.symm
      · exact .inr ⟨version, hversion, entry, rfl, hadds⟩
  refine ⟨fun directory hdirectory => ?_, fun attempt => ?_, ?_⟩
  · rcases hcases directory with hsame | ⟨version, -, entry, hentry, hadds⟩
    · exact .inl hsame
    · obtain ⟨_, other, _, hgains, ⟨rfl, -⟩ | ⟨-, rfl⟩⟩ := hadds
      · exact absurd hdirectory ((Cache.isPath_of_pathOf hgains.placed).notMem_ancestry hbuild)
      · exact .inr hentry
  · rcases hcases (FileRun.temporaryPath path attempt) with hsame | ⟨version, -, entry, -, hadds⟩
    · exact hsame
    · obtain ⟨_, other, _, hgains, ⟨hother, -⟩ | ⟨hother, -⟩⟩ := hadds
      · exact absurd hother (hbuild.temporary_ne (Cache.isPath_of_pathOf hgains.placed) attempt)
      · exact absurd hother
          (hbuild.temporary_notMem_ancestry (Cache.isPath_of_pathOf hgains.placed) attempt)
  · rw [hnone, h.none_of_none hnone]

/-- What comes of a version by itself. -/
inductive Outcome (around : Surroundings σ) (b : Broker) (version : String) :
    Except Failure FilePath → Prop
  | unknown : b.known.classify version = .error .unknownVersion →
      Outcome around b version (.error .unknownVersion)
  | found {kind : BuildKind} {path : FilePath} : b.known.classify version = .ok kind →
      b.cache.pathOf kind version = .ok path → b.cache.files.present path = .ok true →
      Outcome around b version (.ok path)
  | unreachable {kind : BuildKind} {path : FilePath} {reason : String} :
      b.known.classify version = .ok kind → b.cache.pathOf kind version = .ok path →
      b.cache.files.present path = .ok false →
      fetch around b version kind path = .failed reason →
      Outcome around b version (.error (.downloadUnreachable version reason))
  | refused {kind : BuildKind} {path : FilePath} {r : Response} :
      b.known.classify version = .ok kind → b.cache.pathOf kind version = .ok path →
      b.cache.files.present path = .ok false →
      fetch around b version kind path = .response r → r.status ≠ 200 →
      Outcome around b version
        (.error (.downloadRefused version r.status (Response.phrase r.status)))
  | gained {kind : BuildKind} {path : FilePath} {r : Response} :
      Gains around b version kind path r →
      (b.cache.files.write around.refused path (Cache.kept kind r).1 (Cache.kept kind r).2).1 =
        .ok () → Outcome around b version (.ok path)

theorem exists_outcome (hresponds : around.depot.Responds) (hwrites : Writes around b version)
    (hshort : ¬ b.Overlong version) : ∃ outcome, Outcome around b version outcome := by
  cases hkind : b.known.classify version with
  | error failure =>
    obtain rfl := Cache.classify_error hkind
    exact ⟨_, .unknown hkind⟩
  | ok kind =>
    obtain ⟨path, hpath⟩ := b.cache.pathOf_eq_ok hkind
    have hpresent : b.cache.files.present path = .ok (b.cache.files.entry? path).isSome :=
      Files.present_of_not_isOverlong fun hlong => hshort ⟨path, ⟨kind, hkind, hpath⟩, hlong⟩
    cases hfound : (b.cache.files.entry? path).isSome with
    | true => exact ⟨_, .found hkind hpath (hfound ▸ hpresent)⟩
    | false =>
      have habsent := hfound ▸ hpresent
      cases hfetched : fetch around b version kind path with
      | silence => exact absurd hfetched (hresponds.get_ne _ _)
      | failed reason => exact ⟨_, .unreachable hkind hpath habsent hfetched⟩
      | response r =>
        by_cases hstatus : r.status = 200
        · have hgains : Gains around b version kind path r :=
            ⟨hkind, hpath, habsent, hfetched, hstatus⟩
          exact ⟨_, .gained hgains (hwrites kind path r hgains)⟩
        · exact ⟨_, .refused hkind hpath habsent hfetched hstatus⟩

theorem Reached.step {d : Broker} (h : Reached around b seen c) (hknown : d.known = c.known)
    (hroot : d.cache.root = c.cache.root) (hsource : d.cache.source = c.cache.source)
    (hidle : d.cache.IsIdle)
    (hentry : ∀ place entry, d.cache.files.entry? place = some entry ↔
      c.cache.files.entry? place = some entry ∨
        b.cache.files.entry? place = none ∧ Adds around b version place entry) :
    Reached around b (seen ++ [version]) d := by
  refine ⟨hknown.trans h.known, hroot.trans h.root, hsource.trans h.source, hidle, ?_⟩
  intro place entry
  rw [hentry, h.entry]
  unfold Holds
  constructor
  · rintro ((hsame | ⟨hnone, added, hadded, hadds⟩) | ⟨hnone, hadds⟩)
    · exact .inl hsame
    · exact .inr ⟨hnone, added, List.mem_append_left _ hadded, hadds⟩
    · exact .inr ⟨hnone, version, by simp, hadds⟩
  · rintro (hsame | ⟨hnone, added, hadded, hadds⟩)
    · exact .inl (.inl hsame)
    · rcases List.mem_append.mp hadded with hadded | hadded
      · exact .inl (.inr ⟨hnone, added, hadded, hadds⟩)
      · rw [List.mem_singleton.mp hadded] at hadds
        exact .inr ⟨hnone, hadds⟩

/-- Getting a version changes no files if all that it adds is there. -/
theorem Reached.step_same {d : Broker} (h : Reached around b seen c) (hknown : d.known = c.known)
    (hroot : d.cache.root = c.cache.root) (hsource : d.cache.source = c.cache.source)
    (hidle : d.cache.IsIdle) (hfiles : d.cache.files = c.cache.files)
    (hadds : ∀ place entry, Adds around b version place entry →
      c.cache.files.entry? place = some entry ∨ b.cache.files.entry? place ≠ none) :
    Reached around b (seen ++ [version]) d := by
  refine h.step hknown hroot hsource hidle fun place entry => ?_
  rw [hfiles]
  refine ⟨.inl, ?_⟩
  rintro (hsame | ⟨hnone, hadd⟩)
  · exact hsame
  · exact (hadds place entry hadd).resolve_right (not_not.mpr hnone)

theorem acquire_of_classify_error {failure : Failure} (h : c.cache.IsIdle)
    (hkind : c.known.classify version = .error failure) :
    c.acquire around version = (some (.error failure), [], c) :=
  acquire_of_refused around h (by rw [Cache.request, hkind])

/-- A build whose path is too long cannot be had in any state that is reached. -/
theorem Reached.acquire_overlong (h : Reached around b seen c) (hlong : b.Overlong version) :
    (c.acquire around version).1 = some (.error .internal) := by
  obtain ⟨path, ⟨kind, hkind, hpath⟩, hlong⟩ := hlong
  have hrequest : c.cache.request c.known version = (.ready (.error .internal), c.cache) := by
    rw [Cache.request_eq (h.known ▸ hkind) ((h.pathOf_eq kind version).trans hpath),
      Files.present_of_isOverlong hlong]
  rw [acquire_of_refused around h.idle hrequest]

theorem acquire_of_present (h : c.cache.IsIdle) (hkind : c.known.classify version = .ok kind)
    (hpath : c.cache.pathOf kind version = .ok path)
    (hpresent : c.cache.files.present path = .ok true) :
    c.acquire around version = (some (.ok path), [], c) :=
  acquire_of_refused around h (by rw [Cache.request_eq hkind hpath, hpresent])

/-- A build that is not there is downloaded. -/
theorem acquire_of_fetch (h : c.cache.IsIdle) (hkind : c.known.classify version = .ok kind)
    (hpath : c.cache.pathOf kind version = .ok path)
    (habsent : c.cache.files.present path = .ok false) {outcome : Option (Except Failure FilePath)}
    {files : Files} (hresult : Cache.result around.refused c.cache.files
      (newDownload version kind path) (fetch around c version kind path) = (outcome, files)) :
    ∃ paths, c.acquire around version = (outcome, paths,
      { c with cache := afterDownload c.cache (newDownload version kind path) outcome files }) :=
  ⟨_, acquire_of_absent around h (by rw [Cache.request_eq hkind hpath, habsent]) rfl hresult⟩

/-- Nothing stands for a build that was not there, unless it was got under some spelling. -/
theorem Reached.absent_or_gained (h : Reached around b seen c)
    (hpath : b.cache.pathOf kind version = .ok path)
    (habsent : b.cache.files.present path = .ok false) :
    c.cache.files.entry? path = none ∨ ∃ other ∈ seen, ∃ r, Gains around b other kind path r ∧
      c.cache.files.entry? path =
        some (.file (Cache.stored kind r).1 (Cache.stored kind r).2) := by
  cases hentry : c.cache.files.entry? path with
  | none => exact .inl rfl
  | some entry =>
    have hnone := Files.entry?_of_present habsent
    rcases (h.entry path entry).mp hentry with hbefore | ⟨-, other, hother, hadds⟩
    · rw [hnone] at hbefore
      cases hbefore
    · obtain ⟨r, hgains, rfl⟩ := hadds.gains hpath
      exact .inr ⟨other, hother, r, hgains, rfl⟩

/-- A directory on the way to a build is never a file that was added. -/
theorem Reached.directory_of_way (h : Reached around b seen c)
    (hpath : b.cache.pathOf kind version = .ok path)
    (hway : place ∈ Files.ancestry path.parent) (hnone : b.cache.files.entry? place = none)
    (hentry : c.cache.files.entry? place = some entry) : entry = .directory := by
  rcases (h.entry place entry).mp hentry with hbefore | ⟨-, other, -, hadds⟩
  · rw [hnone] at hbefore
    cases hbefore
  · obtain ⟨_, _, _, hgains, ⟨rfl, -⟩ | ⟨-, rfl⟩⟩ := hadds
    · exact absurd hway ((Cache.isPath_of_pathOf hgains.placed).notMem_ancestry
        (Cache.isPath_of_pathOf hpath))
    · rfl

/-- A download that comes to nothing leaves all as it was. -/
theorem Reached.acquire_failed {failure : Failure} (h : Reached around b seen c)
    (hkind : b.known.classify version = .ok kind) (hpath : b.cache.pathOf kind version = .ok path)
    (habsent : b.cache.files.present path = .ok false)
    (hbad : ∀ r, fetch around b version kind path = .response r → r.status ≠ 200)
    (hresult : Cache.result around.refused c.cache.files (newDownload version kind path)
      (fetch around b version kind path) = (some (.error failure), c.cache.files)) :
    (c.acquire around version).1 = some (.error failure) ∧
      Reached around b (seen ++ [version]) (c.acquire around version).2.2 := by
  have hnone : c.cache.files.entry? path = none := by
    refine (h.absent_or_gained hpath habsent).resolve_right ?_
    rintro ⟨other, -, r, hgains, -⟩
    exact hbad r ((fetch_of_path hpath hgains.placed).trans hgains.fetched) hgains.good
  have hpresent : c.cache.files.present path = .ok false := by
    rw [Files.present_of_ok habsent, hnone]
    rfl
  rw [← h.fetch_eq] at hresult
  obtain ⟨paths, hacquire⟩ := acquire_of_fetch h.idle (h.known ▸ hkind)
    ((h.pathOf_eq kind version).trans hpath) hpresent hresult
  rw [hacquire]
  refine ⟨rfl, h.step_same rfl rfl rfl (isIdle_afterDownload h.idle _ _ _) rfl ?_⟩
  rintro place entry ⟨_, _, r, hgains, -⟩
  obtain ⟨rfl, rfl⟩ := hgains.eq_of_known hkind hpath
  exact absurd hgains.good (hbad r hgains.fetched)

/-- A build that was got under another spelling is found. -/
theorem Reached.acquire_shared (h : Reached around b seen c) {again : Response}
    (hgains : Gains around b version kind path r) (hother : other ∈ seen)
    (hagain : Gains around b other kind path again)
    (hentry : c.cache.files.entry? path = some entry) :
    (c.acquire around version).1 = some (.ok path) ∧
      Reached around b (seen ++ [version]) (c.acquire around version).2.2 := by
  have hpresent : c.cache.files.present path = .ok true := by
    rw [Files.present_of_ok hgains.absent, hentry]
    rfl
  rw [acquire_of_present h.idle (h.known ▸ hgains.known)
    ((h.pathOf_eq kind version).trans hgains.placed) hpresent]
  refine ⟨rfl, h.step_same rfl rfl rfl h.idle rfl fun place entry hadds => ?_⟩
  by_cases hnone : b.cache.files.entry? place = none
  · have hsame : again = r := Fetched.response.inj (hagain.fetched.symm.trans
      ((fetch_of_path hagain.placed hgains.placed).trans hgains.fetched))
    rw [hgains.adds_iff, ← hsame, ← hagain.adds_iff] at hadds
    exact .inl ((h.entry place entry).mpr (.inr ⟨hnone, other, hother, hadds⟩))
  · exact .inr hnone

/-- A build that is not there yet is written, whatever was written before. -/
theorem Reached.acquire_gained (h : Reached around b seen c)
    (hgains : Gains around b version kind path r)
    (hwrite : (b.cache.files.write around.refused path (Cache.kept kind r).1
      (Cache.kept kind r).2).1 = .ok ())
    (hnone : c.cache.files.entry? path = none) :
    (c.acquire around version).1 = some (.ok path) ∧
      Reached around b (seen ++ [version]) (c.acquire around version).2.2 := by
  have hpath := (h.pathOf_eq kind version).trans hgains.placed
  have hne := (Cache.isPath_of_pathOf hpath).parts_ne_nil
  have hpresent : c.cache.files.present path = .ok false := by
    rw [Files.present_of_ok hgains.absent, hnone]
    rfl
  have hok := Files.write_ok_of_agree hne (h.agree hgains.placed hnone) hwrite
  have hresult := Cache.result_of_write_ok (d := newDownload version kind path) hgains.good hok
  rw [← hgains.fetched, ← h.fetch_eq] at hresult
  obtain ⟨paths, hacquire⟩ :=
    acquire_of_fetch h.idle (h.known ▸ hgains.known) hpath hpresent hresult
  rw [hacquire]
  refine ⟨rfl, h.step rfl rfl rfl (isIdle_afterDownload h.idle _ _ _) fun place entry => ?_⟩
  have hfile : (.file (Cache.kept kind r).1 ((Cache.kept kind r).2.getD Files.temporaryMode) :
      FileEntry) = .file (Cache.stored kind r).1 (Cache.stored kind r).2 := by
    rw [← Cache.kept_eq_stored kind r]
  refine (Files.entry?_write_ok_iff hne hnone hok).trans ?_
  rw [hgains.adds_iff, hfile, Places]
  constructor
  · rintro (hbefore | ⟨hbefore, hplaces⟩)
    · exact .inl hbefore
    · exact .inr ⟨h.none_of_none hbefore, hplaces⟩
  · rintro (hbefore | ⟨hbefore, hplaces⟩)
    · exact .inl hbefore
    · cases hplace : c.cache.files.entry? place with
      | none => exact .inr ⟨rfl, hplaces⟩
      | some found =>
        rcases hplaces with ⟨rfl, -⟩ | ⟨hway, rfl⟩
        · rw [hnone] at hplace
          cases hplace
        · exact .inl (congrArg some (h.directory_of_way hgains.placed hway hbefore hplace))

/-- What comes of a version is the same in every state that is reached. -/
theorem Reached.acquire (h : Reached around b seen c)
    (ho : Outcome around b version outcome) :
    (c.acquire around version).1 = some outcome ∧
      Reached around b (seen ++ [version]) (c.acquire around version).2.2 := by
  cases ho with
  | unknown hkind =>
    rw [acquire_of_classify_error h.idle (h.known ▸ hkind)]
    refine ⟨rfl, h.step_same rfl rfl rfl h.idle rfl ?_⟩
    rintro place entry ⟨_, _, _, hgains, -⟩
    rw [hgains.known] at hkind
    cases hkind
  | @found kind path hkind hpath hpresent =>
    obtain ⟨entry, hentry⟩ := Option.isSome_iff_exists.mp (Files.isSome_of_present hpresent)
    have hthere : c.cache.files.present path = .ok true := by
      rw [Files.present_of_ok hpresent, h.stays hentry]
      rfl
    rw [acquire_of_present h.idle (h.known ▸ hkind) ((h.pathOf_eq kind version).trans hpath) hthere]
    refine ⟨rfl, h.step_same rfl rfl rfl h.idle rfl ?_⟩
    rintro place entry ⟨_, _, _, hgains, -⟩
    obtain ⟨rfl, rfl⟩ := hgains.eq_of_known hkind hpath
    have habsent := hgains.absent
    rw [hpresent] at habsent
    cases habsent
  | unreachable hkind hpath habsent hfetched =>
    refine h.acquire_failed hkind hpath habsent ?_ (by rw [hfetched]; rfl)
    rw [hfetched]
    exact nofun
  | refused hkind hpath habsent hfetched hstatus =>
    refine h.acquire_failed hkind hpath habsent ?_ ?_
    · rw [hfetched]
      rintro r hr
      obtain rfl := Fetched.response.inj hr
      exact hstatus
    · rw [hfetched, Cache.result, if_neg hstatus]
      rfl
  | gained hgains hwrite =>
    rcases h.absent_or_gained hgains.placed hgains.absent with
      hnone | ⟨other, hother, again, hagain, hentry⟩
    · exact h.acquire_gained hgains hwrite hnone
    · exact h.acquire_shared hgains hother hagain hentry

/-- No outcome is a failure that stops the warming. -/
theorem Outcome.textOf (h : Outcome around b version outcome) :
    ∃ text, Warmed.textOf outcome = .ok text := by
  cases h with
  | unknown => exact ⟨_, rfl⟩
  | found => exact ⟨_, rfl⟩
  | unreachable => exact ⟨_, rfl⟩
  | refused => exact ⟨_, rfl⟩
  | gained => exact ⟨_, rfl⟩

/-- A build that was not there can be acquired exactly if it is gained. -/
theorem Outcome.gains_iff (h : Outcome around b version outcome) (path : FilePath) :
    (∃ kind r, Gains around b version kind path r) ↔
      outcome = .ok path ∧ b.cache.files.entry? path = none := by
  cases h with
  | unknown hkind =>
    refine iff_of_false ?_ nofun
    rintro ⟨_, _, hgains⟩
    rw [hgains.known] at hkind
    cases hkind
  | found hkind hpath hpresent =>
    have hthere := Files.isSome_of_present hpresent
    constructor
    · rintro ⟨_, _, hgains⟩
      obtain ⟨rfl, rfl⟩ := hgains.eq_of_known hkind hpath
      rw [Files.entry?_of_present hgains.absent] at hthere
      cases hthere
    · rintro ⟨hsame, hnone⟩
      obtain rfl := Except.ok.inj hsame
      rw [hnone] at hthere
      cases hthere
  | unreachable hkind hpath _ hfetched =>
    refine iff_of_false ?_ nofun
    rintro ⟨_, _, hgains⟩
    obtain ⟨rfl, rfl⟩ := hgains.eq_of_known hkind hpath
    rw [hgains.fetched] at hfetched
    cases hfetched
  | refused hkind hpath _ hfetched hstatus =>
    refine iff_of_false ?_ nofun
    rintro ⟨_, _, hgains⟩
    obtain ⟨rfl, rfl⟩ := hgains.eq_of_known hkind hpath
    rw [hgains.fetched] at hfetched
    exact hstatus (Fetched.response.inj hfetched ▸ hgains.good)
  | gained hgained _ =>
    constructor
    · rintro ⟨_, _, hgains⟩
      obtain ⟨-, rfl⟩ := hgains.eq_of_known hgained.known hgained.placed
      exact ⟨rfl, Files.entry?_of_present hgains.absent⟩
    · rintro ⟨hsame, -⟩
      obtain rfl := Except.ok.inj hsame
      exact ⟨_, _, hgained⟩

/-- The text that warming tells of a version by itself. -/
def Told (around : Surroundings σ) (b : Broker) (version text : String) : Prop :=
  ∃ outcome, (b.acquire around version).1 = some outcome ∧ Warmed.textOf outcome = .ok text

theorem warmFrom_cons {done : Warmed} {paths : List String} {text : String}
    {outcome : Except Failure FilePath} (hacquired : (c.acquire around version).1 = some outcome)
    (htext : Warmed.textOf outcome = .ok text) :
    warmFrom around done paths c (version :: versions) =
      warmFrom around (Assoc.put done version text) (paths ++ (c.acquire around version).2.1)
        (c.acquire around version).2.2 versions := by
  rcases hstep : c.acquire around version with ⟨acquired, more, d⟩
  rw [hstep] at hacquired
  obtain rfl : acquired = some outcome := hacquired
  dsimp only [warmFrom]
  rw [hstep]
  dsimp only
  rw [htext]

theorem warm_of_told {text : String} (h : Told around b version text) :
    (b.warm around [version]).1 = some (.ok [(version, text)]) := by
  obtain ⟨outcome, hacquired, htext⟩ := h
  rw [warm, warmFrom_cons hacquired htext]
  rfl

/-- The entries of some versions, each with what is told of it by itself. -/
structure Lists (around : Surroundings σ) (b : Broker) (versions : List String) (done : Warmed) :
    Prop where
  nodup : (done.map Prod.fst).Nodup
  entry : ∀ version text, Assoc.get? done version = some text ↔
    version ∈ versions ∧ Told around b version text

theorem Lists.put {done : Warmed} {text : String} (h : Lists around b seen done)
    (htold : Told around b version text) :
    Lists around b (seen ++ [version]) (Assoc.put done version text) := by
  refine ⟨Assoc.nodup_put h.nodup, fun other found => ?_⟩
  rw [List.mem_append, List.mem_singleton]
  by_cases hother : other = version
  · subst hother
    rw [Assoc.get?_put_self, Option.some_inj]
    constructor
    · rintro rfl
      exact ⟨.inr rfl, htold⟩
    · rintro ⟨-, outcome, hacquired, hfound⟩
      obtain ⟨first, hfirst, htext⟩ := htold
      obtain rfl : first = outcome := Option.some.inj (hfirst.symm.trans hacquired)
      exact Except.ok.inj (htext.symm.trans hfound)
  · rw [Assoc.get?_put_ne hother, h.entry, or_iff_left hother]

theorem warmFrom_reached (hidle : b.cache.IsIdle) (hresponds : around.depot.Responds)
    {done : Warmed} (paths : List String) (hwrites : ∀ version ∈ versions, Writes around b version)
    (hshort : ∀ version ∈ versions, ¬ b.Overlong version)
    (hreached : Reached around b seen c) (hlists : Lists around b seen done) :
    ∃ all : Warmed, ∃ asked after, warmFrom around done paths c versions =
        (some (.ok all), asked, after) ∧
      Reached around b (seen ++ versions) after ∧ Lists around b (seen ++ versions) all := by
  induction versions generalizing seen done paths c with
  | nil =>
    rw [List.append_nil]
    exact ⟨done, paths, c, rfl, hreached, hlists⟩
  | cons version versions ih =>
    obtain ⟨hfirst, hrest⟩ := List.forall_mem_cons.mp hwrites
    obtain ⟨hname, hnames⟩ := List.forall_mem_cons.mp hshort
    obtain ⟨outcome, hout⟩ := exists_outcome hresponds hfirst hname
    obtain ⟨text, htext⟩ := hout.textOf
    obtain ⟨hacquired, hnext⟩ := hreached.acquire hout
    have htold : Told around b version text :=
      ⟨outcome, ((reached_nil around hidle).acquire hout).1, htext⟩
    obtain ⟨all, asked, after, hwarm, hafter, hall⟩ := ih
      (paths ++ (c.acquire around version).2.1) hrest hnames hnext (hlists.put htold)
    rw [List.append_assoc, List.singleton_append] at hafter hall
    exact ⟨all, asked, after, (warmFrom_cons hacquired htext).trans hwarm, hafter, hall⟩

/-- The first version whose path is too long stops the warming, whatever comes after it. -/
theorem warmFrom_overlong (hresponds : around.depot.Responds) (done : Warmed)
    (paths : List String) (hwrites : ∀ version ∈ versions, Writes around b version)
    (hreached : Reached around b seen c) (hversion : version ∈ versions)
    (hlong : b.Overlong version) :
    (warmFrom around done paths c versions).1 = some (.error .internal) := by
  induction versions generalizing seen done paths c with
  | nil => cases hversion
  | cons first rest ih =>
    by_cases hfirst : b.Overlong first
    · have hstopped := hreached.acquire_overlong hfirst
      rcases hstep : c.acquire around first with ⟨acquired, more, d⟩
      rw [hstep] at hstopped
      obtain rfl : acquired = some (.error .internal) := hstopped
      dsimp only [warmFrom]
      rw [hstep]
      rfl
    · have hrest : version ∈ rest := by
        refine (List.mem_cons.mp hversion).resolve_left ?_
        rintro rfl
        exact hfirst hlong
      obtain ⟨hwrite, hothers⟩ := List.forall_mem_cons.mp hwrites
      obtain ⟨outcome, hout⟩ := exists_outcome hresponds hwrite hfirst
      obtain ⟨text, htext⟩ := hout.textOf
      obtain ⟨hacquired, hnext⟩ := hreached.acquire hout
      rw [warmFrom_cons hacquired htext]
      exact ih _ _ hothers hnext hrest

/-- Where warming versions leads: each version has one entry, which is that of the version by
itself, and nothing is added to the files but the builds that could be acquired. -/
structure Warms (around : Surroundings σ) (b : Broker) (versions : List String) (done : Warmed)
    (after : Broker) : Prop where
  nodup : (done.map Prod.fst).Nodup
  names : ∀ version, version ∈ done.map Prod.fst ↔ version ∈ versions
  alone : ∀ version text, (version, text) ∈ done →
    (b.warm around [version]).1 = some (.ok [(version, text)])
  idle : after.cache.IsIdle
  entry : ∀ place entry, after.cache.files.entry? place = some entry ↔
    Holds around b versions place entry
  gained : ∀ version ∈ versions, ∀ path, (∃ kind r, Gains around b version kind path r) ↔
    (b.acquire around version).1 = some (.ok path) ∧ b.cache.files.entry? path = none

theorem warms_of_short (hidle : b.cache.IsIdle) (hresponds : around.depot.Responds)
    (hwrites : ∀ version ∈ versions, Writes around b version)
    (hshort : ∀ version ∈ versions, ¬ b.Overlong version) :
    ∃ done : Warmed, (b.warm around versions).1 = some (.ok done) ∧
      Warms around b versions done (b.warm around versions).2.2 ∧ Lists around b versions done := by
  have hnone : Lists around b [] [] := ⟨List.nodup_nil, fun version text => by simp [Assoc.get?]⟩
  obtain ⟨done, asked, after, hwarm, hreached, hlists⟩ :=
    warmFrom_reached hidle hresponds [] hwrites hshort
      (reached_nil around hidle) hnone
  rw [List.nil_append] at hreached hlists
  rw [warm, hwarm]
  refine ⟨done, rfl, ⟨hlists.nodup, fun version => ?_, fun version text hentry => ?_,
    hreached.idle, hreached.entry, fun version hversion path => ?_⟩, hlists⟩
  · constructor
    · intro hname
      obtain ⟨⟨_, text⟩, hentry, rfl⟩ := List.mem_map.mp hname
      exact ((hlists.entry _ text).mp ((Assoc.get?_eq_some_iff hlists.nodup).mpr hentry)).1
    · intro hversion
      obtain ⟨outcome, hout⟩ := exists_outcome hresponds (hwrites version hversion)
        (hshort version hversion)
      obtain ⟨text, htext⟩ := hout.textOf
      have htold : Told around b version text :=
        ⟨outcome, ((reached_nil around hidle).acquire hout).1, htext⟩
      exact List.mem_map_of_mem (Assoc.mem_of_get? ((hlists.entry version text).mpr
        ⟨hversion, htold⟩))
  · have hget := (Assoc.get?_eq_some_iff hlists.nodup).mpr hentry
    exact warm_of_told ((hlists.entry version text).mp hget).2
  · obtain ⟨outcome, hout⟩ := exists_outcome hresponds (hwrites version hversion)
        (hshort version hversion)
    rw [hout.gains_iff, ((reached_nil around hidle).acquire hout).1, Option.some_inj]

theorem Lists.perm {done again : Warmed} {others : List String} (h : Lists around b versions done)
    (ho : Lists around b others again)
    (hothers : ∀ version, version ∈ others ↔ version ∈ versions) :
    again.Perm done := by
  refine (List.perm_ext_iff_of_nodup (ho.nodup.of_map _) (h.nodup.of_map _)).mpr ?_
  rintro ⟨version, text⟩
  rw [← Assoc.get?_eq_some_iff ho.nodup, ← Assoc.get?_eq_some_iff h.nodup, ho.entry, h.entry,
    hothers]

/-- What comes of warming a version is what would come of warming it by itself, whatever other
versions are named with it, how often and in which order. -/
def Independent (around : Surroundings σ) (b : Broker) (versions : List String) : Prop :=
  ∃ done : Warmed, (b.warm around versions).1 = some (.ok done) ∧
    Warms around b versions done (b.warm around versions).2.2 ∧
    ∀ others : List String, (∀ version, version ∈ others ↔ version ∈ versions) →
      ∃ again : Warmed, (b.warm around others).1 = some (.ok again) ∧ again.Perm done ∧
        ∀ place, (b.warm around others).2.2.cache.files.entry? place =
          (b.warm around versions).2.2.cache.files.entry? place

theorem independent_of_short (hidle : b.cache.IsIdle) (hresponds : around.depot.Responds)
    (hwrites : ∀ version ∈ versions, Writes around b version)
    (hshort : ∀ version ∈ versions, ¬ b.Overlong version) : Independent around b versions := by
  obtain ⟨done, hdone, hwarms, hlists⟩ := warms_of_short hidle hresponds hwrites hshort
  refine ⟨done, hdone, hwarms, fun others hothers => ?_⟩
  obtain ⟨again, hagain, hsecond, hsame⟩ := warms_of_short hidle hresponds
    (fun version hversion => hwrites version ((hothers version).mp hversion))
    fun version hversion => hshort version ((hothers version).mp hversion)
  refine ⟨again, hagain, ?_, fun place => ?_⟩
  · exact hlists.perm hsame hothers
  · refine Option.ext fun entry => ?_
    rw [hsecond.entry, hwarms.entry]
    simp only [Holds, hothers]

/-- A broker that knows three builds, none of which is there yet. -/
def unstocked : Broker where
  known := { native := ["v0.8.20", "v0.8.21"], scripted := ["v0.4.11"], loaded := true }
  cache := {
    root := ⟨"/", ["builds"]⟩
    source := ⟨"https://depot", "linux-amd64", ⟨0, 6, 0, none, none⟩⟩ }
  traces := { capacity := 1 }
  timeout := .ofInt 1

/-- A depot that has one of the builds, lacks another and cannot be reached for the third. -/
def halfStocked : Surroundings Unit where
  depot := [("/linux-amd64/solc-linux-amd64-v0.8.20", .response { body := [1, 2, 3] }),
    ("/bin/soljson-v0.4.11.js", .failed "reset")]
  followsRedirections := false
  loader := {
    load := fun _ _ => .ok (.modern, ())
    answer := fun _ s => (.ok "", s)
    diagnostics := fun _ => "" }

def mixedVersions : List String :=
  ["0.8.21", "0.8.20", "latest", "v0.8.20", "0.4.11", "9.9.9", "0.8.20"]

/-- A release with a build of so many characters. -/
def releaseOfLength (n : Nat) : CompilerVersion :=
  ⟨0, 8, 20, none, some (String.ofList (List.replicate n 'a'))⟩

theorem wellFormed_releaseOfLength {n : Nat} (h : n ≠ 0) : (releaseOfLength n).WellFormed := by
  have hone : 1 < Json.maxDigits := by decide
  have hsmall {k : Nat} (hk : k < 10 ^ 2) : k < 10 ^ Json.maxDigits :=
    Nat.lt_of_lt_of_le hk (Nat.pow_le_pow_right (by decide) hone)
  refine ⟨⟨0, rfl, hsmall (by decide)⟩, ⟨8, rfl, hsmall (by decide)⟩,
    ⟨20, rfl, hsmall (by decide)⟩, by simp [releaseOfLength, CompilerVersion.SuffixReads], ?_⟩
  intro text htext
  obtain rfl := Option.some.inj htext
  refine ⟨fun hempty => ?_, fun c hc => ?_⟩
  · have hlength := congrArg String.length hempty
    rw [String.length_ofList, List.length_replicate] at hlength
    exact h hlength
  · rw [String.toList_ofList] at hc
    rw [List.eq_of_mem_replicate hc]
    rfl

theorem le_length_canonical (n : Nat) : n ≤ (releaseOfLength n).canonical.length := by
  rw [CompilerVersion.canonical, String.length_append]
  simp only [releaseOfLength, CompilerVersion.suffixText]
  split
  · rename_i hempty
    have hlength := congrArg String.length hempty
    rw [String.length_ofList, List.length_replicate] at hlength
    have hzero : n = 0 := hlength
    omega
  · simp only [String.length_append, String.length_ofList, List.length_replicate]
    omega

/-- A release of which no file can be told whether it is there. -/
theorem overlong_releaseOfLength {n : Nat} (hn : Files.maxName ≤ n)
    (hknown : b.known.classify (releaseOfLength n).canonical = .ok .scripted) :
    b.Overlong (releaseOfLength n).canonical := by
  have hpos : 0 < n := Nat.lt_of_lt_of_le (by decide) hn
  have hwell := wellFormed_releaseOfLength (n := n) (Nat.ne_of_gt hpos)
  have hparse := Results.eq_ok_of_toOption hwell.parse?_canonical
  let name := Artifact.nameOf b.cache.source.platform .scripted (releaseOfLength n).canonical
  have hpath : b.cache.pathOf .scripted (releaseOfLength n).canonical =
      .ok (b.cache.root.child name) := by
    rw [Cache.pathOf, Artifact.name_of_parse hparse]
    rfl
  refine ⟨_, ⟨.scripted, hknown, hpath⟩, ?_⟩
  have hlong : Files.isTooLong name := by
    refine Files.isTooLong_of_length ?_
    have hle := le_length_canonical n
    simp only [name, Artifact.nameOf, String.length_append]
    have hstart : 0 < Artifact.scriptedStart.length := by decide
    omega
  rw [FilePath.child_of_relative (Artifact.relative_nameOf _ _ _), Artifact.parts_scripted hwell]
  simp [Files.isOverlong, hlong, name]

/-- A broker that knows two releases; the file of one of them has too long a name. -/
def listingLong : Broker :=
  { unstocked with
    known := { scripted := ["v0.4.11", (releaseOfLength 300).canonical], loaded := true } }

/-- A depot that has the build of the other release only. -/
def oneStocked : Surroundings Unit :=
  { halfStocked with depot := [("/bin/soljson-v0.4.11.js", .response { body := [1, 2, 3] })] }

end Broker

end SolcDispatch
