import SolcDispatch.Proofs.Cache.Sharing

/-! The invariant of a shared cache: a download that is not forgotten is the one shared
under its name, nothing stands under its path while it runs, and a second one begins only
after the first one failed. -/

namespace SolcDispatch.Sharing

/-- The file under a path holds what is kept of a good response to a download of it. -/
def IsWhole (events : List Event) (s : Sharing) (path : FilePath) : Prop :=
  ∃ n d refused r, s.cache.downloads[n]? = some d ∧ d.path = path ∧
    .complete n refused (.response r) ∈ events ∧ r.status = 200 ∧
    s.cache.files.entry? path = some (.file (Cache.kept d.kind r).1
      ((Cache.kept d.kind r).2.getD Files.temporaryMode))

/-- What stands under a path is complete: it is what was there at the start, or it was
downloaded. -/
def IsComplete (files : Files) (events : List Event) (s : Sharing) (path : FilePath) : Prop :=
  (∃ entry, files.entry? path = some entry ∧ s.cache.files.entry? path = some entry) ∨
    IsWhole events s path

/-- What the ticket of a caller stands for. -/
def IsServed (files : Files) (events : List Event) (s : Sharing) (c : Caller) : Prop :=
  match c.ticket with
  | .ready (.ok path) =>
    s.cache.Locates c.known c.version path ∧ IsComplete files events s path
  | .ready (.error failure) => s.cache.Refuses c.known c.version failure
  | .waiting n => ∃ path d, s.cache.Locates c.known c.version path ∧
      s.cache.downloads[n]? = some d ∧ d.name = path.fileName

structure Invariant (files : Files) (events : List Event) (s : Sharing) : Prop where
  places : ∀ {n : Nat} {d : Download}, s.cache.downloads[n]? = some d →
    Artifact.IsPath s.cache.root s.cache.source.platform d.path
  shared : ∀ {n : Nat} {d : Download}, s.cache.downloads[n]? = some d → n ∉ s.forgotten →
    Assoc.get? s.cache.inFlight d.name = some n
  entered : ∀ {name : String} {n : Nat}, Assoc.get? s.cache.inFlight name = some n →
    n ∉ s.forgotten ∧ ∃ d, s.cache.downloads[n]? = some d ∧ d.name = name
  stopped : ∀ {n : Nat}, n ∈ s.forgotten → ∃ d, s.cache.downloads[n]? = some d ∧ ¬ d.isRunning
  absent : ∀ {n : Nat} {d : Download}, s.cache.downloads[n]? = some d → d.isRunning →
    s.cache.files.entry? d.path = none
  fetched : ∀ {n : Nat} {d : Download} {path : FilePath}, s.cache.downloads[n]? = some d →
    d.outcome = some (.ok path) → path = d.path ∧ IsWhole events s path
  found : ∀ {path : FilePath}, Artifact.IsPath s.cache.root s.cache.source.platform path →
    s.cache.files.entry? path = files.entry? path ∨ IsWhole events s path
  once : ∀ {n m : Nat} {d e : Download}, s.cache.downloads[n]? = some d →
    s.cache.downloads[m]? = some e → n < m → d.path = e.path →
    ∃ failure, d.outcome = some (.error failure)
  served : ∀ {c : Caller}, c ∈ s.callers → IsServed files events s c

/-- What stays from one step to the next. -/
structure Extends (s t : Sharing) : Prop where
  grows : s.cache.Grows t.cache
  stays : ∀ {path : FilePath} {entry : FileEntry}, s.cache.files.entry? path = some entry →
    t.cache.files.entry? path = some entry

variable {files : Files} {events more : List Event} {s t : Sharing}

theorem Extends.of_cache_eq (h : t.cache = s.cache) : Extends s t := by
  refine ⟨?_, ?_⟩ <;> rw [h]
  · exact .refl _
  · exact id

theorem Extends.locates (h : Extends s t) {known : Snapshot} {version : String} {path : FilePath}
    (hp : s.cache.Locates known version path) : t.cache.Locates known version path := by
  obtain ⟨kind, hk, hp⟩ := hp
  refine ⟨kind, hk, ?_⟩
  rwa [Cache.pathOf, h.grows.root, h.grows.source]

theorem IsWhole.mono {path : FilePath} (h : IsWhole events s path) (ht : Extends s t)
    (he : events ⊆ more) : IsWhole more t path := by
  obtain ⟨n, d, refused, r, hd, hp, hevent, hstatus, hentry⟩ := h
  obtain ⟨outcome, hd', _⟩ := ht.grows.downloads hd
  exact ⟨n, _, refused, r, hd', hp, he hevent, hstatus, ht.stays hentry⟩

theorem IsServed.mono {c : Caller} (h : IsServed files events s c) (ht : Extends s t)
    (he : events ⊆ more) : IsServed files more t c := by
  unfold IsServed at h ⊢
  split at h
  · obtain ⟨hp, hc⟩ := h
    refine ⟨ht.locates hp, ?_⟩
    rcases hc with ⟨entry, hstart, hnow⟩ | hw
    · exact .inl ⟨entry, hstart, ht.stays hnow⟩
    · exact .inr (hw.mono ht he)
  · rcases h with h | ⟨hf, path, hp, hlong⟩
    · exact .inl h
    · exact .inr ⟨hf, path, ht.locates hp, hlong⟩
  · obtain ⟨path, d, hp, hd, hname⟩ := h
    obtain ⟨outcome, hd', _⟩ := ht.grows.downloads hd
    exact ⟨path, _, ht.locates hp, hd', hname⟩

theorem Invariant.of_start (known : Snapshot) (root : FilePath) (source : ReleaseSource)
    (files : Files) : Invariant files [] (start known root source files) where
  places hd := by simp [start] at hd
  shared hd := by simp [start] at hd
  entered hn := by simp [start, Assoc.get?] at hn
  stopped hn := by simp [start] at hn
  absent hd := by simp [start] at hd
  fetched hd := by simp [start] at hd
  found _ := .inl rfl
  once hd := by simp [start] at hd
  served hc := by simp [start] at hc

theorem Invariant.of_cache_eq (h : Invariant files events s) (hcache : t.cache = s.cache)
    (hforgotten : t.forgotten = s.forgotten) (he : events ⊆ more)
    (hserved : ∀ c ∈ t.callers, IsServed files more t c) : Invariant files more t := by
  have ht : Extends s t := .of_cache_eq hcache
  constructor
  case served => exact fun hc => hserved _ hc
  all_goals simp only [hcache, hforgotten]
  · exact h.places
  · exact h.shared
  · exact h.entered
  · exact h.stopped
  · exact h.absent
  · exact fun hd ho => (h.fetched hd ho).imp id fun hw => hw.mono ht he
  · exact fun hp => (h.found hp).imp id fun hw => hw.mono ht he
  · exact h.once

theorem Invariant.notMem_forgotten (h : Invariant files events s) {n : Nat} {d : Download}
    (hd : s.cache.downloads[n]? = some d) (hrun : d.isRunning) : n ∉ s.forgotten := by
  intro hn
  obtain ⟨e, he, hnot⟩ := h.stopped hn
  rw [hd] at he
  cases he
  exact hnot hrun

/-- Two downloads that are not forgotten have different names. -/
theorem Invariant.eq_of_name_eq (h : Invariant files events s) {n m : Nat} {d e : Download}
    (hd : s.cache.downloads[n]? = some d) (he : s.cache.downloads[m]? = some e)
    (hn : n ∉ s.forgotten) (hm : m ∉ s.forgotten) (hname : d.name = e.name) : n = m := by
  have hin := h.shared hd hn
  rw [hname, h.shared he hm] at hin
  exact (Option.some.inj hin).symm

theorem IsWhole.entry_ne_none {path : FilePath} (h : IsWhole events s path) :
    s.cache.files.entry? path ≠ none := by
  obtain ⟨_, _, _, _, _, _, _, _, hentry⟩ := h
  rw [hentry]
  exact Option.some_ne_none _

/-- Where nothing stands and no download is shared, each earlier download has failed. -/
theorem Invariant.failed_of_absent (h : Invariant files events s) {n : Nat} {d : Download}
    (hd : s.cache.downloads[n]? = some d) (hentry : s.cache.files.entry? d.path = none)
    (hin : Assoc.get? s.cache.inFlight d.name = none) :
    ∃ failure, d.outcome = some (.error failure) := by
  have hn : n ∈ s.forgotten := by
    by_contra hn
    rw [h.shared hd hn] at hin
    cases hin
  obtain ⟨e, he, hnot⟩ := h.stopped hn
  rw [hd] at he
  cases he
  cases ho : d.outcome with
  | none => exact absurd (by simp [Download.isRunning, ho]) hnot
  | some outcome =>
    cases outcome with
    | error failure => exact ⟨failure, rfl⟩
    | ok path =>
      obtain ⟨rfl, hw⟩ := h.fetched hd ho
      exact absurd hentry hw.entry_ne_none

def begun (cache : Cache) (d : Download) : Cache :=
  { cache with
    downloads := cache.downloads ++ [d]
    inFlight := Assoc.put cache.inFlight d.name cache.downloads.length }

theorem getElem?_begun {cache : Cache} {d e : Download} {n : Nat}
    (h : (begun cache d).downloads[n]? = some e) :
    cache.downloads[n]? = some e ∨ n = cache.downloads.length ∧ e = d := by
  unfold begun at h
  rw [List.getElem?_append] at h
  split at h
  · exact .inl h
  · rename_i hlt
    rw [List.getElem?_singleton] at h
    split at h
    · rename_i heq
      exact .inr ⟨by omega, (Option.some.inj h).symm⟩
    · cases h

theorem lt_of_getElem?_eq_some {cache : Cache} {d : Download} {n : Nat}
    (h : cache.downloads[n]? = some d) : n < cache.downloads.length :=
  (List.getElem?_eq_some_iff.mp h).1

theorem grows_begun (cache : Cache) (d : Download) : cache.Grows (begun cache d) := by
  refine ⟨rfl, rfl, fun hd => ⟨_, ?_, .inr rfl⟩⟩
  rw [begun, List.getElem?_append_left (lt_of_getElem?_eq_some hd), hd]

theorem Extends.of_begun {d : Download} (h : t.cache = begun s.cache d) : Extends s t := by
  refine ⟨?_, ?_⟩ <;> rw [h]
  · exact grows_begun s.cache d
  · exact id

theorem Invariant.of_begun (h : Invariant files events s) {d : Download}
    (hcache : t.cache = begun s.cache d) (hforgotten : t.forgotten = s.forgotten)
    (he : events ⊆ more) (hserved : ∀ c ∈ t.callers, IsServed files more t c)
    (hplace : Artifact.IsPath s.cache.root s.cache.source.platform d.path)
    (hentry : s.cache.files.entry? d.path = none) (hrun : d.outcome = none)
    (hin : Assoc.get? s.cache.inFlight d.name = none) : Invariant files more t := by
  have ht : Extends s t := .of_begun hcache
  have hfresh : s.cache.downloads.length ∉ s.forgotten := by
    intro hn
    obtain ⟨_, hd, _⟩ := h.stopped hn
    exact absurd (lt_of_getElem?_eq_some hd) (Nat.lt_irrefl _)
  have hlast : (begun s.cache d).downloads[s.cache.downloads.length]? = some d := by
    rw [begun, List.getElem?_concat_length]
  have hfirst {n : Nat} {e : Download} (hn : s.cache.downloads[n]? = some e) :
      (begun s.cache d).downloads[n]? = some e := by
    rw [begun, List.getElem?_append_left (lt_of_getElem?_eq_some hn), hn]
  constructor
  case served => exact fun hc => hserved _ hc
  all_goals simp only [hcache, hforgotten]
  case places =>
    intro n e hn
    rcases getElem?_begun hn with hn | ⟨_, rfl⟩
    · exact h.places hn
    · exact hplace
  case shared =>
    intro n e hn hf
    rcases getElem?_begun hn with hn | ⟨rfl, rfl⟩
    · have hname : e.name ≠ d.name := by
        intro heq
        rw [← heq, h.shared hn hf] at hin
        cases hin
      rw [begun, Assoc.get?_put_ne hname, h.shared hn hf]
    · exact Assoc.get?_put_self
  case entered =>
    intro name n hn
    by_cases hname : name = d.name
    · rw [begun, hname, Assoc.get?_put_self, Option.some.injEq] at hn
      subst hn
      exact ⟨hfresh, d, hlast, hname.symm⟩
    · rw [begun, Assoc.get?_put_ne hname] at hn
      obtain ⟨hf, e, hn, hname⟩ := h.entered hn
      exact ⟨hf, e, hfirst hn, hname⟩
  case stopped =>
    intro n hn
    obtain ⟨e, hn, hnot⟩ := h.stopped hn
    exact ⟨e, hfirst hn, hnot⟩
  case absent =>
    intro n e hn hrun
    rcases getElem?_begun hn with hn | ⟨_, rfl⟩
    · exact h.absent hn hrun
    · exact hentry
  case fetched =>
    intro n e path hn ho
    rcases getElem?_begun hn with hn | ⟨_, rfl⟩
    · exact (h.fetched hn ho).imp id fun hw => hw.mono ht he
    · rw [hrun] at ho
      cases ho
  case found => exact fun hp => (h.found hp).imp id fun hw => hw.mono ht he
  case once =>
    intro n m e e' hn hm hlt hpath
    rcases getElem?_begun hm with hold | ⟨rfl, rfl⟩
    · have hm := lt_of_getElem?_eq_some hold
      rcases getElem?_begun hn with hn | ⟨rfl, _⟩
      · exact h.once hn hold hlt hpath
      · omega
    · rcases getElem?_begun hn with hn | ⟨rfl, _⟩
      · refine h.failed_of_absent hn (hpath ▸ hentry) ?_
        rwa [Download.name, hpath]
      · omega

theorem getElem?_ended {cache : Cache} {n m : Nat} {d e : Download}
    {outcome : Except Failure FilePath} {after : Files}
    (h : (cache.ended n d outcome after).downloads[m]? = some e) :
    m = n ∧ e = { d with outcome := some outcome } ∨ m ≠ n ∧ cache.downloads[m]? = some e := by
  unfold Cache.ended at h
  rw [List.getElem?_set] at h
  split at h
  · rename_i heq
    split at h
    · exact .inl ⟨heq.symm, (Option.some.inj h).symm⟩
    · cases h
  · rename_i hne
    exact .inr ⟨Ne.symm hne, h⟩

theorem getElem?_ended_self {cache : Cache} {n : Nat} {d e : Download}
    {outcome : Except Failure FilePath} {after : Files} (h : cache.downloads[n]? = some e) :
    (cache.ended n d outcome after).downloads[n]? = some { d with outcome := some outcome } := by
  rw [Cache.ended, List.getElem?_set_self (lt_of_getElem?_eq_some h)]

theorem getElem?_ended_ne {cache : Cache} {n m : Nat} {d e : Download}
    {outcome : Except Failure FilePath} {after : Files} (hm : m ≠ n)
    (h : cache.downloads[m]? = some e) :
    (cache.ended n d outcome after).downloads[m]? = some e := by
  rw [Cache.ended, List.getElem?_set_ne (Ne.symm hm), h]

theorem Extends.of_ended {n : Nat} {d : Download} {outcome : Except Failure FilePath}
    {after : Files} (hcache : t.cache = s.cache.ended n d outcome after)
    (hd : s.cache.downloads[n]? = some d) (hrun : d.outcome = none)
    (hadds : Files.Adds d.path s.cache.files after) : Extends s t := by
  refine ⟨⟨?_, ?_, fun {m e} he => ?_⟩, ?_⟩ <;> rw [hcache]
  · rfl
  · rfl
  · by_cases hm : m = n
    · subst hm
      rw [hd] at he
      cases he
      exact ⟨_, getElem?_ended_self hd, .inl hrun⟩
    · exact ⟨_, getElem?_ended_ne hm he, .inr rfl⟩
  · exact hadds.stays

/-- The path with which a download ends holds its file. -/
theorem IsWhole.of_ended {n : Nat} {d : Download} {outcome : Except Failure FilePath}
    {after : Files} {refused : WriteStep → Bool} {fetched : Fetched}
    (hcache : t.cache = s.cache.ended n d outcome after)
    (hevent : .complete n refused fetched ∈ more) (hd : s.cache.downloads[n]? = some d)
    (hleaves : Cache.Leaves fetched d outcome after) {path : FilePath}
    (hok : outcome = .ok path) : path = d.path ∧ IsWhole more t path := by
  rcases hleaves with ⟨⟨failure, hf⟩, _⟩ | ⟨hp, r, rfl, hstatus, hentry⟩
  · rw [hf] at hok
    cases hok
  · rw [hp] at hok
    cases hok
    refine ⟨rfl, n, { d with outcome := some (.ok d.path) }, refused, r, ?_, rfl, hevent,
      hstatus, ?_⟩
    · rw [hcache, hp, getElem?_ended_self hd]
    · rw [hcache, Cache.ended]
      exact hentry

theorem Invariant.of_ended (h : Invariant files events s) {n : Nat} {d : Download}
    {outcome : Except Failure FilePath} {after : Files} {refused : WriteStep → Bool}
    {fetched : Fetched} (hcache : t.cache = s.cache.ended n d outcome after)
    (hforgotten : t.forgotten = s.forgotten) (hcallers : t.callers = s.callers)
    (he : events ⊆ more) (hevent : .complete n refused fetched ∈ more)
    (hd : s.cache.downloads[n]? = some d) (hrun : d.isRunning)
    (hadds : Files.Adds d.path s.cache.files after)
    (hleaves : Cache.Leaves fetched d outcome after) :
    Invariant files more t := by
  have ho : d.outcome = none := Option.isNone_iff_eq_none.mp hrun
  have ht : Extends s t := .of_ended hcache hd ho hadds
  have hback {m : Nat} {e : Download} (hn : t.cache.downloads[m]? = some e) :
      m = n ∧ e = { d with outcome := some outcome } ∨ m ≠ n ∧ s.cache.downloads[m]? = some e :=
    getElem?_ended (hcache ▸ hn)
  have hfiles : t.cache.files = after := by rw [hcache, Cache.ended]
  have hwhole {path : FilePath} (hok : outcome = .ok path) :
      path = d.path ∧ IsWhole more t path := IsWhole.of_ended hcache hevent hd hleaves hok
  constructor
  case places =>
    intro m e hn
    rw [ht.grows.root, ht.grows.source]
    rcases hback hn with ⟨rfl, rfl⟩ | ⟨_, hn⟩
    · exact h.places (d := d) hd
    · exact h.places hn
  case shared =>
    intro m e hn hf
    rw [hforgotten] at hf
    rw [hcache, Cache.ended]
    rcases hback hn with ⟨rfl, rfl⟩ | ⟨_, hn⟩
    · exact h.shared (d := d) hd hf
    · exact h.shared hn hf
  case entered =>
    intro name m hin
    rw [hcache, Cache.ended] at hin
    obtain ⟨hf, e, hn, hname⟩ := h.entered hin
    obtain ⟨_, hn, _⟩ := ht.grows.downloads hn
    exact ⟨hforgotten ▸ hf, _, hn, hname⟩
  case stopped =>
    intro m hm
    rw [hforgotten] at hm
    obtain ⟨e, hn, hnot⟩ := h.stopped hm
    by_cases heq : m = n
    · exact absurd (heq ▸ hm) (h.notMem_forgotten hd hrun)
    · exact ⟨e, hcache ▸ getElem?_ended_ne heq hn, hnot⟩
  case absent =>
    intro m e hn hrune
    rcases hback hn with ⟨rfl, rfl⟩ | ⟨hne, hn⟩
    · cases hrune
    · have hpath : e.path ≠ d.path := by
        intro heq
        refine hne (h.eq_of_name_eq hn hd (h.notMem_forgotten hn hrune)
          (h.notMem_forgotten hd hrun) ?_)
        rw [Download.name, heq, Download.name]
      rw [hfiles, hadds.apart hpath ((h.places hn).notMem_ancestry (h.places hd))]
      exact h.absent hn hrune
  case fetched =>
    intro m e path hn hoe
    rcases hback hn with ⟨rfl, rfl⟩ | ⟨_, hn⟩
    · exact hwhole (Option.some.inj hoe)
    · exact (h.fetched hn hoe).imp id fun hw => hw.mono ht he
  case found =>
    intro path hp
    rw [ht.grows.root, ht.grows.source] at hp
    by_cases hpath : path = d.path
    · subst hpath
      rcases hleaves with ⟨_, hentry⟩ | ⟨rfl, _⟩
      · rw [hfiles, hentry]
        rcases h.found hp with hfound | hw
        · exact .inl (by rw [← hfound, h.absent hd hrun])
        · exact absurd (h.absent hd hrun) hw.entry_ne_none
      · exact .inr (hwhole rfl).2
    · rw [hfiles, hadds.apart hpath (hp.notMem_ancestry (h.places hd))]
      exact (h.found hp).imp id fun hw => hw.mono ht he
  case once =>
    intro m k e e' hn hk hlt hpath
    rcases hback hn with ⟨rfl, rfl⟩ | ⟨_, hn⟩
    · rcases hback hk with ⟨rfl, _⟩ | ⟨_, hk⟩
      · omega
      · obtain ⟨failure, hf⟩ := h.once hd hk hlt hpath
        rw [ho] at hf
        cases hf
    · rcases hback hk with ⟨rfl, rfl⟩ | ⟨_, hk⟩
      · exact h.once hn hd hlt hpath
      · exact h.once hn hk hlt hpath
  case served =>
    intro c hc
    rw [hcallers] at hc
    exact (h.served hc).mono ht he

theorem Extends.of_forget {name : String} (h : t.cache = s.cache.forget name) : Extends s t := by
  refine ⟨⟨?_, ?_, fun hd => ⟨_, ?_, .inr rfl⟩⟩, ?_⟩ <;> rw [h]
  · rfl
  · rfl
  · exact hd
  · exact id

/-- Only the download that ended is forgotten, since its name still belongs to it. -/
theorem Invariant.of_forget (h : Invariant files events s) {n : Nat} {d : Download}
    (hcache : t.cache = s.cache.forget d.name) (hforgotten : t.forgotten = n :: s.forgotten)
    (hcallers : t.callers = s.callers) (he : events ⊆ more)
    (hd : s.cache.downloads[n]? = some d) (hend : ¬ d.isRunning) (hn : n ∉ s.forgotten) :
    Invariant files more t := by
  have ht : Extends s t := .of_forget hcache
  constructor
  case served =>
    intro c hc
    rw [hcallers] at hc
    exact (h.served hc).mono ht he
  all_goals simp only [hcache, hforgotten, Cache.forget]
  case places => exact h.places
  case shared =>
    intro m e hm hf
    rw [List.mem_cons, not_or] at hf
    have hname : e.name ≠ d.name := fun heq => hf.1 (h.eq_of_name_eq hm hd hf.2 hn heq)
    rw [Assoc.get?_without_ne hname, h.shared hm hf.2]
  case entered =>
    intro name m hin
    have hname : name ≠ d.name := by
      rintro rfl
      rw [Assoc.get?_without_self] at hin
      cases hin
    rw [Assoc.get?_without_ne hname] at hin
    obtain ⟨hf, e, hm, rfl⟩ := h.entered hin
    refine ⟨?_, e, hm, rfl⟩
    rw [List.mem_cons, not_or]
    refine ⟨?_, hf⟩
    rintro rfl
    rw [hd] at hm
    cases hm
    exact hname rfl
  case stopped =>
    intro m hm
    rcases List.mem_cons.mp hm with rfl | hm
    · exact ⟨d, hd, hend⟩
    · exact h.stopped hm
  case absent => exact h.absent
  case fetched => exact fun hm ho => (h.fetched hm ho).imp id fun hw => hw.mono ht he
  case found => exact fun hp => (h.found hp).imp id fun hw => hw.mono ht he
  case once => exact h.once

theorem Invariant.isComplete (h : Invariant files events s) {path : FilePath}
    (hp : Artifact.IsPath s.cache.root s.cache.source.platform path)
    (hentry : (s.cache.files.entry? path).isSome) : IsComplete files events s path := by
  obtain ⟨entry, hentry⟩ := Option.isSome_iff_exists.mp hentry
  rcases h.found hp with he | hw
  · exact .inl ⟨entry, by rw [← he, hentry], hentry⟩
  · exact .inr hw

theorem Invariant.step_ask (h : Invariant files events s) (version : String) :
    Invariant files (events ++ [.ask version]) (s.step (.ask version)) ∧
      Extends s (s.step (.ask version)) := by
  have he := List.subset_append_left events [.ask version]
  have hserved (c : Caller) (ht : Extends s (s.step (.ask version)))
      (hnew : IsServed files (events ++ [.ask version]) (s.step (.ask version))
        ⟨version, s.known, (s.cache.request s.known version).1, false⟩)
      (hc : c ∈ (s.step (.ask version)).callers) :
      IsServed files (events ++ [.ask version]) (s.step (.ask version)) c := by
    rcases List.mem_append.mp hc with hc | hc
    · exact (h.served hc).mono ht he
    · rwa [List.mem_singleton.mp hc]
  rcases s.cache.request_cases s.known version with
    ⟨failure, hr, hf⟩ | ⟨kind, path, hk, hp, ⟨hentry, hr⟩ | ⟨hentry, hr⟩⟩
  · have hcache : (s.step (.ask version)).cache = s.cache := by simp only [step, hr]
    have ht : Extends s (s.step (.ask version)) := .of_cache_eq hcache
    refine ⟨h.of_cache_eq hcache rfl he fun c hc => hserved c ht ?_ hc, ht⟩
    rw [hr, IsServed, hcache]
    exact hf
  · have hcache : (s.step (.ask version)).cache = s.cache := by simp only [step, hr]
    have ht : Extends s (s.step (.ask version)) := .of_cache_eq hcache
    refine ⟨h.of_cache_eq hcache rfl he fun c hc => hserved c ht ?_ hc, ht⟩
    rw [hr]
    have hlocated : s.cache.Locates s.known version path := ⟨kind, hk, hp⟩
    refine ⟨ht.locates hlocated, ?_⟩
    rcases h.isComplete hlocated.isPath hentry with ⟨entry, hstart, hnow⟩ | hw
    · exact .inl ⟨entry, hstart, ht.stays hnow⟩
    · exact .inr (hw.mono ht he)
  · cases hin : Assoc.get? s.cache.inFlight path.fileName with
    | some n =>
      have hjoin : s.cache.request s.known version = (.waiting n, s.cache) := by
        rw [hr, Cache.join, hin]
      have hcache : (s.step (.ask version)).cache = s.cache := by simp only [step, hjoin]
      have ht : Extends s (s.step (.ask version)) := .of_cache_eq hcache
      refine ⟨h.of_cache_eq hcache rfl he fun c hc => hserved c ht ?_ hc, ht⟩
      obtain ⟨_, d, hd, hname⟩ := h.entered hin
      rw [hjoin]
      exact ⟨path, d, ht.locates ⟨kind, hk, hp⟩, hcache ▸ hd, hname⟩
    | none =>
      have hjoin : s.cache.request s.known version = (.waiting s.cache.downloads.length,
          begun s.cache { version, kind, path }) := by
        rw [hr, Cache.join, hin]
        rfl
      have hcache : (s.step (.ask version)).cache = begun s.cache { version, kind, path } := by
        simp only [step, hjoin]
      have ht : Extends s (s.step (.ask version)) := .of_begun hcache
      have hlocated : s.cache.Locates s.known version path := ⟨kind, hk, hp⟩
      refine ⟨h.of_begun hcache rfl he (fun c hc => hserved c ht ?_ hc)
        hlocated.isPath hentry rfl hin, ht⟩
      rw [hjoin]
      refine ⟨path, { version, kind, path }, ht.locates hlocated, ?_, rfl⟩
      rw [hcache, begun, List.getElem?_concat_length]

theorem Invariant.step_complete (h : Invariant files events s) (n : Nat)
    (refused : WriteStep → Bool) (fetched : Fetched) :
    Invariant files (events ++ [.complete n refused fetched])
        (s.step (.complete n refused fetched)) ∧
      Extends s (s.step (.complete n refused fetched)) := by
  have he := List.subset_append_left events [.complete n refused fetched]
  have hfree : ∀ d ∈ s.cache.downloads, d.isRunning →
      s.cache.files.entry? d.path = none ∧ d.path.parts ≠ [] := by
    intro d hd hrun
    obtain ⟨m, hm⟩ := List.mem_iff_getElem?.mp hd
    exact ⟨h.absent hm hrun, (h.places hm).parts_ne_nil⟩
  rcases Cache.complete_cases refused fetched hfree with
    hcache | ⟨d, outcome, after, hd, hrun, hcache, hadds, hleaves⟩
  · have ht : Extends s (s.step (.complete n refused fetched)) := .of_cache_eq hcache
    exact ⟨h.of_cache_eq hcache rfl he fun c hc => (h.served hc).mono ht he, ht⟩
  · have hmem : Event.complete n refused fetched ∈ events ++ [.complete n refused fetched] :=
      List.mem_append_right events (List.mem_singleton_self _)
    exact ⟨h.of_ended hcache rfl rfl he hmem hd hrun hadds hleaves,
      .of_ended hcache hd (Option.isNone_iff_eq_none.mp hrun) hadds⟩

theorem Invariant.step_forget (h : Invariant files events s) (n : Nat) :
    Invariant files (events ++ [.forget n]) (s.step (.forget n)) ∧
      Extends s (s.step (.forget n)) := by
  have he := List.subset_append_left events [.forget n]
  have hstay : Invariant files (events ++ [.forget n]) s ∧ Extends s s :=
    have ht : Extends s s := .of_cache_eq rfl
    ⟨h.of_cache_eq rfl rfl he fun c hc => (h.served hc).mono ht he, ht⟩
  simp only [step]
  cases hd : s.cache.downloads[n]? with
  | none => exact hstay
  | some d =>
    by_cases hskip : d.isRunning || s.forgotten.contains n
    · simpa only [hskip, if_true] using hstay
    · simp only [hskip, Bool.false_eq_true, if_false]
      rw [Bool.or_eq_true, not_or, List.contains_iff_mem] at hskip
      exact ⟨h.of_forget rfl rfl rfl he hd hskip.1 hskip.2, .of_forget rfl⟩

theorem Invariant.step_cancel (h : Invariant files events s) (n : Nat) :
    Invariant files (events ++ [.cancel n]) (s.step (.cancel n)) ∧
      Extends s (s.step (.cancel n)) := by
  have he := List.subset_append_left events [.cancel n]
  have ht : Extends s (s.step (.cancel n)) := .of_cache_eq rfl
  refine ⟨h.of_cache_eq rfl rfl he fun c hc => ?_, ht⟩
  obtain ⟨m, hm⟩ := List.mem_iff_getElem?.mp hc
  rw [Sharing.step, List.getElem?_modify] at hm
  obtain ⟨old, hold, rfl⟩ := Option.map_eq_some_iff.mp hm
  have hserved := (h.served (List.mem_of_getElem? hold)).mono ht he
  split <;> exact hserved

theorem Invariant.step (h : Invariant files events s) (event : Event) :
    Invariant files (events ++ [event]) (s.step event) ∧ Extends s (s.step event) := by
  cases event with
  | refresh known =>
    have he := List.subset_append_left events [.refresh known]
    have ht : Extends s (s.step (.refresh known)) := .of_cache_eq rfl
    exact ⟨h.of_cache_eq rfl rfl he fun c hc => (h.served hc).mono ht he, ht⟩
  | ask version => exact h.step_ask version
  | complete n refused fetched => exact h.step_complete n refused fetched
  | forget n => exact h.step_forget n
  | cancel n => exact h.step_cancel n

theorem Extends.trans {u : Sharing} (h : Extends s t) (ht : Extends t u) : Extends s u :=
  ⟨h.grows.trans ht.grows, fun he => ht.stays (h.stays he)⟩

theorem Invariant.run (h : Invariant files events s) (more : List Event) :
    Invariant files (events ++ more) (s.run more) ∧ Extends s (s.run more) := by
  induction more generalizing events s with
  | nil => exact ⟨by simpa using h, .of_cache_eq rfl⟩
  | cons event more ih =>
    obtain ⟨hs, ht⟩ := h.step event
    obtain ⟨hr, hu⟩ := ih hs
    rw [run_cons]
    refine ⟨?_, ht.trans hu⟩
    rwa [List.append_assoc, List.singleton_append] at hr

end SolcDispatch.Sharing
