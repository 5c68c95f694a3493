import SolcDispatch.Proofs.Artifact.Names
import SolcDispatch.Proofs.Cache.SharingInvariant

/-! What tickets lead to. Programs may leave any files in a cache, so this says nothing of
what stands under a path, only that a ticket leads to the path of the build it was given for. -/

namespace SolcDispatch.Cache

variable {cache other : Cache} {known : Snapshot} {version : String} {kind : BuildKind}
  {asked path : FilePath} {ticket : Ticket} {n : Nat} {d : Download}

/-- Each download goes where its build belongs, and the one that runs under a name is shared
under it. -/
structure Orderly (cache : Cache) : Prop where
  placed : ∀ {n : Nat} {d : Download}, cache.downloads[n]? = some d →
    cache.pathOf d.kind d.version = .ok d.path
  landed : ∀ {n : Nat} {d : Download} {path : FilePath}, cache.downloads[n]? = some d →
    d.outcome = some (.ok path) → path = d.path
  entered : ∀ {name : String} {n : Nat}, Assoc.get? cache.inFlight name = some n →
    ∃ d, cache.downloads[n]? = some d ∧ d.name = name
  shared : ∀ {n : Nat} {d : Download}, cache.downloads[n]? = some d → d.isRunning →
    Assoc.get? cache.inFlight d.name = some n

/-- A ticket leads to a path, or to a download of a file of the same name. -/
def Leads (cache : Cache) (asked : FilePath) : Ticket → Prop
  | .ready answer => ∀ path, answer = .ok path → path = asked
  | .waiting n => ∃ d, cache.downloads[n]? = some d ∧ d.name = asked.fileName

theorem Grows.pathOf_eq (h : cache.Grows other) (kind : BuildKind) (version : String) :
    other.pathOf kind version = cache.pathOf kind version := by
  simp only [pathOf, h.root, h.source]

theorem Grows.of_downloads_eq (hroot : other.root = cache.root)
    (hsource : other.source = cache.source) (h : other.downloads = cache.downloads) :
    cache.Grows other :=
  ⟨hroot, hsource, fun hd => ⟨_, h ▸ hd, .inr rfl⟩⟩

theorem Leads.mono (h : cache.Leads asked ticket) (hg : cache.Grows other) :
    other.Leads asked ticket := by
  cases ticket with
  | ready answer => exact h
  | waiting n =>
    obtain ⟨d, hd, hname⟩ := h
    obtain ⟨outcome, hd', -⟩ := hg.downloads hd
    exact ⟨_, hd', hname⟩

theorem Orderly.of_empty (hd : cache.downloads = []) (hin : cache.inFlight = []) :
    cache.Orderly where
  placed h := by simp [hd] at h
  landed h := by simp [hd] at h
  entered h := by simp [hin, Assoc.get?] at h
  shared h := by simp [hd] at h

theorem Orderly.withFiles (h : cache.Orderly) (files : Files) :
    { cache with files }.Orderly := ⟨h.placed, h.landed, h.entered, h.shared⟩

theorem grows_withFiles (cache : Cache) (files : Files) : cache.Grows { cache with files } :=
  .of_downloads_eq rfl rfl rfl

theorem Orderly.begun (h : cache.Orderly) (hplace : cache.pathOf d.kind d.version = .ok d.path)
    (hrun : d.outcome = none) (hin : Assoc.get? cache.inFlight d.name = none) :
    (Sharing.begun cache d).Orderly where
  placed hn := by
    rcases Sharing.getElem?_begun hn with hn | ⟨-, rfl⟩
    · exact h.placed hn
    · exact hplace
  landed hn ho := by
    rcases Sharing.getElem?_begun hn with hn | ⟨-, rfl⟩
    · exact h.landed hn ho
    · rw [hrun] at ho
      cases ho
  entered {name n} hn := by
    by_cases hname : name = d.name
    · rw [Sharing.begun, hname, Assoc.get?_put_self, Option.some.injEq] at hn
      exact ⟨d, by rw [Sharing.begun, ← hn, List.getElem?_concat_length], hname.symm⟩
    · rw [Sharing.begun, Assoc.get?_put_ne hname] at hn
      obtain ⟨e, he, hname⟩ := h.entered hn
      obtain ⟨_, he, -⟩ := (Sharing.grows_begun cache d).downloads he
      exact ⟨_, he, hname⟩
  shared {n e} hn hrun := by
    rcases Sharing.getElem?_begun hn with hn | ⟨rfl, rfl⟩
    · have hne : e.name ≠ d.name := by
        intro heq
        rw [← heq, h.shared hn hrun] at hin
        cases hin
      rw [Sharing.begun, Assoc.get?_put_ne hne, h.shared hn hrun]
    · exact Assoc.get?_put_self

/-- Whoever asks for a build gets a ticket that leads to the path of the kind of build that the
catalog names at that moment. -/
theorem Orderly.request (h : cache.Orderly) (hk : known.classify version = .ok kind) :
    ∃ asked, cache.pathOf kind version = .ok asked ∧
      (cache.request known version).2.Orderly ∧ cache.Grows (cache.request known version).2 ∧
      (cache.request known version).2.Leads asked (cache.request known version).1 := by
  obtain ⟨asked, hp⟩ := pathOf_eq_ok cache hk
  refine ⟨asked, hp, ?_⟩
  rw [request_eq hk hp]
  cases hpresent : cache.files.present asked with
  | error failure => exact ⟨h, .refl cache, fun _ hf => by cases hf⟩
  | ok present =>
    cases present with
    | true => exact ⟨h, .refl cache, fun path hpath => (Except.ok.inj hpath).symm⟩
    | false =>
      simp only [join]
      cases hin : Assoc.get? cache.inFlight asked.fileName with
      | some n => exact ⟨h, .refl cache, h.entered hin⟩
      | none =>
        have hlast : (Sharing.begun cache { version, kind, path := asked }).downloads[
            cache.downloads.length]? = some { version, kind, path := asked } := by
          rw [Sharing.begun, List.getElem?_concat_length]
        exact ⟨h.begun hp rfl hin, Sharing.grows_begun cache _, _, hlast, rfl⟩

theorem landed_of_result {refused : WriteStep → Bool} {files : Files} {fetched : Fetched}
    (h : (result refused files d fetched).1 = some (.ok path)) : path = d.path := by
  cases fetched with
  | silence => cases h
  | failed reason => cases h
  | response r =>
    simp only [result] at h
    split at h
    · simp only [Option.some.injEq] at h
      cases hw : (files.write refused d.path (kept d.kind r).1 (kept d.kind r).2).1 with
      | error failure =>
        rw [hw] at h
        cases h
      | ok done =>
        rw [hw] at h
        exact (Except.ok.inj h).symm
    · cases h

theorem complete_eq (cache : Cache) (refused : WriteStep → Bool) (n : Nat) (fetched : Fetched) :
    cache.complete refused n fetched = cache ∨
    ∃ d outcome files, cache.downloads[n]? = some d ∧ d.isRunning ∧
      (∀ path, outcome = some (.ok path) → path = d.path) ∧
      cache.complete refused n fetched =
        { cache with files, downloads := cache.downloads.set n { d with outcome } } := by
  unfold complete
  cases hd : cache.downloads[n]? with
  | none => exact .inl rfl
  | some d =>
    by_cases hrun : d.isRunning
    · dsimp only
      rw [if_pos hrun]
      exact .inr ⟨d, _, _, rfl, hrun, fun path => landed_of_result, rfl⟩
    · dsimp only
      rw [if_neg hrun]
      exact .inl rfl

theorem Orderly.complete (h : cache.Orderly) (refused : WriteStep → Bool) (n : Nat)
    (fetched : Fetched) :
    (cache.complete refused n fetched).Orderly ∧ cache.Grows (cache.complete refused n fetched) := by
  rcases cache.complete_eq refused n fetched with he | ⟨d, outcome, files, hd, hrun, hland, he⟩
  · rw [he]
    exact ⟨h, .refl cache⟩
  have hback {m : Nat} {e : Download}
      (hm : (cache.downloads.set n { d with outcome })[m]? = some e) :
      m = n ∧ e = { d with outcome } ∨ cache.downloads[m]? = some e := by
    rw [List.getElem?_set] at hm
    split at hm
    · rename_i heq
      split at hm
      · exact .inl ⟨heq.symm, (Option.some.inj hm).symm⟩
      · cases hm
    · exact .inr hm
  have hgrows : cache.Grows
      { cache with files, downloads := cache.downloads.set n { d with outcome } } := by
    refine ⟨rfl, rfl, fun {m e} hm => ?_⟩
    by_cases heq : n = m
    · subst heq
      rw [hd] at hm
      cases hm
      exact ⟨outcome, by simp [Sharing.lt_of_getElem?_eq_some hd],
        .inl (Option.isNone_iff_eq_none.mp hrun)⟩
    · exact ⟨_, by rw [List.getElem?_set_ne heq, hm], .inr rfl⟩
  rw [he]
  refine ⟨⟨fun hm => ?_, fun hm ho => ?_, fun hin => ?_, fun hm hrunning => ?_⟩, hgrows⟩
  · rcases hback hm with ⟨-, rfl⟩ | hm
    · exact h.placed (d := d) hd
    · exact h.placed hm
  · rcases hback hm with ⟨-, rfl⟩ | hm
    · exact hland _ ho
    · exact h.landed hm ho
  · obtain ⟨e, hm, hname⟩ := h.entered hin
    obtain ⟨_, hm, -⟩ := hgrows.downloads hm
    exact ⟨_, hm, hname⟩
  · rcases hback hm with ⟨rfl, rfl⟩ | hm
    · exact h.shared (d := d) hd hrun
    · exact h.shared hm hrunning

theorem grows_forget (cache : Cache) (name : String) : cache.Grows (cache.forget name) :=
  .of_downloads_eq rfl rfl rfl

/-- Only the download that has ended is forgotten, since the name in flight is its own. -/
theorem Orderly.forget (h : cache.Orderly) (hd : cache.downloads[n]? = some d)
    (hend : ¬ d.isRunning) (hin : Assoc.get? cache.inFlight d.name = some n) :
    (cache.forget d.name).Orderly where
  placed := h.placed
  landed := h.landed
  entered {name m} hm := by
    by_cases hname : name = d.name
    · rw [Cache.forget, hname, Assoc.get?_without_self] at hm
      cases hm
    · rw [Cache.forget, Assoc.get?_without_ne hname] at hm
      exact h.entered hm
  shared {m e} hm hrun := by
    have hname : e.name ≠ d.name := by
      intro heq
      have hshared := h.shared hm hrun
      rw [heq, hin, Option.some.injEq] at hshared
      have hsame : cache.downloads[n]? = some e := hshared ▸ hm
      rw [hd, Option.some.injEq] at hsame
      exact hend (hsame ▸ hrun)
    rw [Cache.forget, Assoc.get?_without_ne hname, h.shared hm hrun]

/-- A path is where a build is kept, or has the same file name, which is all that is certain
where the name of the platform has slashes in it. -/
def IsAt (cache : Cache) (asked path : FilePath) : Prop :=
  path.fileName = asked.fileName ∧ ('/' ∉ cache.source.platform.toList → path = asked)

theorem IsAt.mono (h : cache.IsAt asked path) (hg : cache.Grows other) : other.IsAt asked path := by
  unfold IsAt
  rw [hg.source]
  exact h

theorem Orderly.isAt_of_name_eq (h : cache.Orderly) (hasked : cache.pathOf kind version = .ok asked)
    (hd : cache.downloads[n]? = some d) (hname : d.name = asked.fileName) :
    cache.IsAt asked d.path :=
  ⟨hname, fun hslash => Artifact.IsPath.eq_of_fileName hslash (isPath_of_pathOf (h.placed hd))
    (isPath_of_pathOf hasked) hname⟩

theorem Orderly.isAt_of_answer (h : cache.Orderly) (hasked : cache.pathOf kind version = .ok asked)
    (hleads : cache.Leads asked ticket) (ha : cache.answer? ticket = some (.ok path)) :
    cache.IsAt asked path := by
  cases ticket with
  | ready answer =>
    obtain rfl := hleads path (Option.some.inj ha)
    exact ⟨rfl, fun _ => rfl⟩
  | waiting n =>
    obtain ⟨d, hd, hname⟩ := hleads
    rw [answer?, hd, Option.bind_some] at ha
    obtain rfl := h.landed hd ha
    exact h.isAt_of_name_eq hasked hd hname

theorem name_of_pathOf (h : cache.pathOf kind version = .ok path) :
    ∃ v : CompilerVersion, v.WellFormed ∧ Artifact.name cache.source.platform kind version =
        .ok (Artifact.nameOf cache.source.platform kind v.canonical) ∧
      path = cache.root.child (Artifact.nameOf cache.source.platform kind v.canonical) := by
  unfold pathOf at h
  cases hfound : Artifact.name cache.source.platform kind version with
  | error error =>
    rw [hfound] at h
    cases h
  | ok found =>
    rw [hfound] at h
    cases h
    obtain ⟨v, hv, rfl⟩ := Artifact.exists_of_name hfound
    exact ⟨v, hv, rfl, rfl⟩

/-- A path belongs to builds of one kind. -/
theorem kind_of_pathOf {second : BuildKind} {text : String}
    (h : cache.pathOf kind version = .ok path) (ho : cache.pathOf second text = .ok path) :
    kind = second := by
  obtain ⟨v, hv, -, hpath⟩ := name_of_pathOf h
  obtain ⟨w, hw, -, hsame⟩ := name_of_pathOf ho
  exact ((Artifact.child_nameOf_eq_iff cache.root hv hw).mp (hpath ▸ hsame)).2

/-- Builds with one path are one build, with one name. -/
theorem name_eq_of_pathOf {text : String} (h : cache.pathOf kind version = .ok path)
    (ho : cache.pathOf kind text = .ok path) : Artifact.name cache.source.platform kind version =
      Artifact.name cache.source.platform kind text := by
  obtain ⟨v, hv, hname, hpath⟩ := name_of_pathOf h
  obtain ⟨w, hw, hother, hsame⟩ := name_of_pathOf ho
  obtain ⟨rfl, -⟩ := (Artifact.child_nameOf_eq_iff cache.root hv hw).mp (hpath ▸ hsame)
  rw [hname, hother]

end SolcDispatch.Cache
