import Mathlib.Logic.Relation
import SolcDispatch.Broker.Basic
import SolcDispatch.Proofs.Catalog.Listing

/-! Attempts to refresh the catalog that may overlap in time. Whatever their order, the
catalog says what both lists of one attempt say, the last one that succeeded. -/

namespace SolcDispatch.Catalog

/-- An attempt to refresh, with what has come of its two requests; a request that waits
has come to nothing yet. -/
structure Attempt where
  scripted : Fetched := .silence
  native : Fetched := .silence

def listText? : Fetched → Option String
  | .response r => if r.status = 200 then some r.text else none
  | _ => none

def Attempt.lists? (a : Attempt) : Option (String × String) :=
  match listText? a.scripted, listText? a.native with
  | some scripted, some native => some (scripted, native)
  | _, _ => none

/-- A catalog with the attempts under way and those that have come to an end, the latest
first. -/
structure Refreshing where
  known : Snapshot := {}
  underWay : List Attempt := []
  ended : List Attempt := []

/-- One step of a catalog. An attempt ends when its outcome is certain, or when it is
given up. -/
inductive Step (source : ReleaseSource) : Refreshing → Refreshing → Prop
  | start (s : Refreshing) : Step source s { s with underWay := s.underWay ++ [{}] }
  | scriptedCame {s : Refreshing} {n : Nat} {a : Attempt} (fetched : Fetched)
      (ha : s.underWay[n]? = some a) (hw : a.scripted = .silence) :
      Step source s { s with underWay := s.underWay.set n { a with scripted := fetched } }
  | nativeCame {s : Refreshing} {n : Nat} {a : Attempt} (fetched : Fetched)
      (ha : s.underWay[n]? = some a) (hw : a.native = .silence) :
      Step source s { s with underWay := s.underWay.set n { a with native := fetched } }
  | finish {s : Refreshing} {n : Nat} {a : Attempt} (ha : s.underWay[n]? = some a)
      (hend : (outcome source a.scripted a.native).isSome) :
      Step source s ⟨after source s.known a.scripted a.native, s.underWay.eraseIdx n,
        a :: s.ended⟩
  | giveUp (s : Refreshing) (n : Nat) : Step source s { s with underWay := s.underWay.eraseIdx n }

abbrev Reachable (source : ReleaseSource) : Refreshing → Prop :=
  Relation.ReflTransGen (Step source) {}

/-- The lists of the last attempt that ended with both of them. -/
def Refreshing.latest? (s : Refreshing) : Option (String × String) :=
  s.ended.findSome? Attempt.lists?

def said (source : ReleaseSource) : Option (String × String) → Snapshot
  | some (scripted, native) => snapshotOf source (Text.lines scripted) (Text.lines native)
  | none => {}

theorem readFeed_eq_some_ok_iff {url : String} {fetched : Fetched} {lines : List String} :
    readFeed url fetched = some (.ok lines) ↔
      ∃ text, listText? fetched = some text ∧ Text.lines text = lines := by
  cases fetched with
  | response r => by_cases hs : r.status = 200 <;> simp [readFeed, listText?, hs]
  | failed reason => simp [readFeed, listText?]
  | silence => simp [readFeed, listText?]

theorem outcome_eq_some_ok_iff {source : ReleaseSource} {scripted native : Fetched}
    {fresh : Snapshot} :
    outcome source scripted native = some (.ok fresh) ↔
      ∃ lists, (Attempt.mk scripted native).lists? = some lists ∧
        said source (some lists) = fresh := by
  unfold outcome Attempt.lists?
  constructor
  · intro h
    split at h
    · cases h
    · cases h
    · rename_i hs hn
      obtain ⟨st, hst, rfl⟩ := readFeed_eq_some_ok_iff.mp hs
      obtain ⟨nt, hnt, rfl⟩ := readFeed_eq_some_ok_iff.mp hn
      exact ⟨(st, nt), by simp [hst, hnt], by simpa [said] using h⟩
    · cases h
  · rintro ⟨⟨st, nt⟩, hl, rfl⟩
    split at hl
    · rename_i hst hnt
      cases hl
      rw [readFeed_eq_some_ok_iff.mpr ⟨st, hst, rfl⟩, readFeed_eq_some_ok_iff.mpr ⟨nt, hnt, rfl⟩]
      rfl
    · cases hl

theorem after_eq (source : ReleaseSource) (known : Snapshot) (a : Attempt) :
    after source known a.scripted a.native =
      match a.lists? with
      | some lists => said source (some lists)
      | none => known := by
  cases hl : a.lists? with
  | some lists =>
    have ho : outcome source a.scripted a.native = some (.ok (said source (some lists))) :=
      outcome_eq_some_ok_iff.mpr ⟨lists, hl, rfl⟩
    simp only [after, ho]
  | none =>
    unfold after
    split
    · rename_i fresh ho
      obtain ⟨lists, hs, _⟩ := outcome_eq_some_ok_iff.mp ho
      rw [show Attempt.mk a.scripted a.native = a from rfl, hl] at hs
      cases hs
    · rfl

theorem Step.known_eq {source : ReleaseSource} {s t : Refreshing} (h : Step source s t)
    (hs : s.known = said source s.latest?) : t.known = said source t.latest? := by
  cases h with
  | start => exact hs
  | scriptedCame => exact hs
  | nativeCame => exact hs
  | giveUp => exact hs
  | finish ha hend =>
    rename_i a
    simp only [Refreshing.latest?, List.findSome?_cons, after_eq]
    cases a.lists? with
    | some lists => rfl
    | none => exact hs

theorem Reachable.known_eq {source : ReleaseSource} {s : Refreshing} (h : Reachable source s) :
    s.known = said source s.latest? := by
  induction h with
  | refl => rfl
  | tail _ hstep ih => exact hstep.known_eq ih

theorem Step.known_eq_of_failed {source : ReleaseSource} {s t : Refreshing} (h : Step source s t)
    (hfail : ∀ a, t.ended = a :: s.ended → a.lists? = none) : t.known = s.known := by
  cases h with
  | start => rfl
  | scriptedCame => rfl
  | nativeCame => rfl
  | giveUp => rfl
  | finish ha hend => simp only [after_eq, hfail _ rfl]

/-- The spelling of a version comes from a line of the last list of native builds. -/
def Refreshing.NamesNative (source : ReleaseSource) (s : Refreshing) (v : CompilerVersion) : Prop :=
  ∃ lists ∈ s.latest?, ∃ line ∈ Text.lines lists.2, ∃ w,
    Index.Names (Artifact.nativeStart source.platform) "" line w ∧ w.canonical = v.canonical

/-- The spelling of a version comes from a line of the last list of scripted builds. -/
def Refreshing.NamesScripted (s : Refreshing) (v : CompilerVersion) : Prop :=
  ∃ lists ∈ s.latest?, ∃ line ∈ Text.lines lists.1, ∃ w,
    Index.Names Artifact.scriptedStart Artifact.scriptedEnd line w ∧ w.canonical = v.canonical

theorem classify_of_parse? {known : Snapshot} {version : String} {v : CompilerVersion}
    (h : CompilerVersion.parse? version = some v) :
    known.classify version =
      if v.canonical ∈ known.native then .ok .native
      else if v.canonical ∈ known.scripted then .ok .scripted
      else .error .unknownVersion := by
  simp only [Snapshot.classify, CompilerVersion.canonical?, h, Option.map_some,
    List.contains_iff_mem]

theorem classify_of_parse?_none {known : Snapshot} {version : String}
    (h : CompilerVersion.parse? version = none) :
    known.classify version = .error .unknownVersion := by
  simp only [Snapshot.classify, CompilerVersion.canonical?, h, Option.map_none]

theorem exists?_iff_classify {known : Snapshot} {version : String} :
    known.exists? version = true ↔ ∃ kind, known.classify version = .ok kind := by
  cases hp : CompilerVersion.parse? version with
  | none => simp [classify_of_parse?_none hp, Snapshot.exists?, CompilerVersion.canonical?, hp]
  | some v =>
    simp only [Snapshot.exists?, CompilerVersion.canonical?, hp, Option.map_some,
      Bool.or_eq_true, List.contains_iff_mem, classify_of_parse? hp]
    by_cases hn : v.canonical ∈ known.native
    · simp [hn]
    · by_cases hs : v.canonical ∈ known.scripted <;> simp [hn, hs]

/-- The floor is held against the versions in the list; as a spelling has one version, it
holds against the version asked for. -/
theorem mem_said_native_iff {source : ReleaseSource} {s : Refreshing} {v : CompilerVersion}
    (hv : v.WellFormed) :
    v.canonical ∈ (said source s.latest?).native ↔
      s.NamesNative source v ∧ v.isBefore source.floor = false := by
  unfold Refreshing.NamesNative
  cases s.latest? with
  | none => simp [said]
  | some lists =>
    simp only [said, snapshotOf, Index.mem_native_iff, Option.mem_some, exists_eq_left']
    constructor
    · rintro ⟨line, hl, w, hw, hf, he⟩
      obtain rfl := CompilerVersion.canonical_injective hw.wellFormed hv he
      exact ⟨⟨line, hl, w, hw, rfl⟩, hf⟩
    · rintro ⟨⟨line, hl, w, hw, he⟩, hf⟩
      obtain rfl := CompilerVersion.canonical_injective hw.wellFormed hv he
      exact ⟨line, hl, w, hw, hf, rfl⟩

theorem mem_said_scripted_iff {source : ReleaseSource} {s : Refreshing} {v : CompilerVersion} :
    v.canonical ∈ (said source s.latest?).scripted ↔ s.NamesScripted v := by
  unfold Refreshing.NamesScripted
  cases s.latest? with
  | none => simp [said]
  | some lists =>
    simp only [said, snapshotOf, Index.mem_scripted_iff, Option.mem_some, exists_eq_left']

/-- No version below a floor is run as a native build. -/
def IsFloored (floor : CompilerVersion) (known : Snapshot) : Prop :=
  ∀ v : CompilerVersion, v.WellFormed → v.canonical ∈ known.native → v.isBefore floor = false

theorem isFloored_empty (floor : CompilerVersion) : IsFloored floor {} := by
  intro v _ hm
  cases hm

theorem IsFloored.after {source : ReleaseSource} {known : Snapshot}
    (h : IsFloored source.floor known) (scripted native : Fetched) :
    IsFloored source.floor (after source known scripted native) := by
  rw [after_eq source known ⟨scripted, native⟩]
  split
  · intro v hv hm
    simp only [said, snapshotOf, Index.mem_native_iff] at hm
    obtain ⟨_, _, w, hw, hf, he⟩ := hm
    obtain rfl := CompilerVersion.canonical_injective hw.wellFormed hv he
    exact hf
  · exact h

theorem IsFloored.classify_ne {floor : CompilerVersion} {known : Snapshot}
    (h : IsFloored floor known) {version : String} {v : CompilerVersion}
    (hp : CompilerVersion.parse? version = some v) (hv : v.isBefore floor = true) :
    known.classify version ≠ .ok .native := by
  intro hk
  rw [classify_of_parse? hp] at hk
  split at hk
  · rename_i hm
    rw [h v (CompilerVersion.wellFormed_of_parse? hp) hm] at hv
    cases hv
  · split at hk <;> cases hk

theorem Reachable.refresh {σ : Type} {around : Surroundings σ} {b : Broker} {s : Refreshing}
    (h : Reachable b.cache.source s) (hk : s.known = b.known) :
    ∃ t, Reachable b.cache.source t ∧ t.known = (b.refresh around).2.2.known := by
  let source := b.cache.source
  let scripted := (around.depot.get around.followsRedirections (source.indexUrl .scripted)).1
  let native := (around.depot.get around.followsRedirections (source.indexUrl .native)).1
  have hstep : (b.refresh around).2.2.known = after source b.known scripted native := rfl
  rw [hstep]
  by_cases hend : (outcome source scripted native).isSome
  · let n := s.underWay.length
    let one : Refreshing := { s with underWay := s.underWay ++ [{}] }
    let two : Refreshing := { one with underWay := one.underWay.set n ⟨scripted, .silence⟩ }
    let three : Refreshing := { two with underWay := two.underWay.set n ⟨scripted, native⟩ }
    have hone : Step source s one := .start s
    have htwo : Step source one two :=
      .scriptedCame (a := {}) scripted (by simp [one, n]) rfl
    have hthree : Step source two three :=
      .nativeCame (a := ⟨scripted, .silence⟩) native (by simp [two, one, n]) rfl
    have hfour := Step.finish (a := ⟨scripted, native⟩) (s := three) (n := n)
      (by simp [three, two, one, n]) hend
    refine ⟨_, (((h.tail hone).tail htwo).tail hthree).tail hfour, ?_⟩
    simp [three, two, one, hk]
  · refine ⟨s, h, ?_⟩
    rw [hk, after, Option.not_isSome_iff_eq_none.mp hend]

/-- What is known, and how versions are classified by it, in every state that attempts to
refresh can reach. -/
theorem known_from_last_lists {source : ReleaseSource} {s : Refreshing} (h : Reachable source s) :
    s.known = said source s.latest? ∧
    (∀ t, Step source s t → (∀ a, t.ended = a :: s.ended → a.lists? = none) →
      t.known = s.known) ∧
    ∀ version,
      (s.known.classify version = .ok .native ↔
        ∃ v, CompilerVersion.parse? version = some v ∧
          s.NamesNative source v ∧ v.isBefore source.floor = false) ∧
      (s.known.classify version = .ok .scripted ↔
        ∃ v, CompilerVersion.parse? version = some v ∧
          ¬ (s.NamesNative source v ∧ v.isBefore source.floor = false) ∧ s.NamesScripted v) ∧
      (∀ failure, s.known.classify version = .error failure → failure = .unknownVersion) ∧
      (s.known.exists? version = true ↔ ∃ kind, s.known.classify version = .ok kind) ∧
      (∀ v, CompilerVersion.parse? version = some v → v.isBefore source.floor = true →
        s.known.classify version ≠ .ok .native) := by
  refine ⟨h.known_eq, fun t ht => ht.known_eq_of_failed, fun version => ?_⟩
  cases hp : CompilerVersion.parse? version with
  | none => simp [exists?_iff_classify, classify_of_parse?_none hp]
  | some v =>
    have hn : v.canonical ∈ s.known.native ↔
        s.NamesNative source v ∧ v.isBefore source.floor = false := by
      rw [h.known_eq]
      exact mem_said_native_iff (CompilerVersion.wellFormed_of_parse? hp)
    have hs : v.canonical ∈ s.known.scripted ↔ s.NamesScripted v := by
      rw [h.known_eq]
      exact mem_said_scripted_iff
    simp only [exists?_iff_classify, classify_of_parse? hp, Option.some.injEq, exists_eq_left']
    by_cases hnative : s.NamesNative source v ∧ v.isBefore source.floor = false
    · rw [if_pos (hn.mpr hnative)]
      simp [hnative]
    · rw [if_neg (fun hm => hnative (hn.mp hm))]
      by_cases hscripted : s.NamesScripted v
      · rw [if_pos (hs.mpr hscripted)]
        simp [hnative, hscripted]
      · rw [if_neg (fun hm => hscripted (hs.mp hm))]
        simp [hnative, hscripted]

/-- The second of two overlapping attempts succeeds, and then the first one fails. -/
theorem known_from_overlapping_attempts :
    ∃ s, Reachable ⟨"https://mirror.test", "linux-amd64", ⟨0, 6, 0, none, none⟩⟩ s ∧
      s.ended.length = 2 ∧
      s.known.classify "0.8.20" = .ok .native ∧
      s.known.classify "0.4.10" = .ok .scripted ∧
      s.known.classify "0.4.9" = .error .unknownVersion := by
  let source : ReleaseSource := ⟨"https://mirror.test", "linux-amd64", ⟨0, 6, 0, none, none⟩⟩
  let scripted : Fetched := .response { body := Text.utf8 "soljson-v0.4.10.js\n" }
  let native : Fetched := .response
    { body := Text.utf8 "solc-linux-amd64-v0.8.20\nsolc-linux-amd64-v0.4.9\n" }
  have hboth : Reachable source _ := (Relation.ReflTransGen.refl.tail (.start _)).tail (.start _)
  have hfirst := hboth.tail (.scriptedCame (n := 0) scripted rfl rfl)
  have hsecond := (hfirst.tail (.scriptedCame (n := 1) scripted rfl rfl)).tail
    (.nativeCame (n := 1) native rfl rfl)
  have hfresh := hsecond.tail (.finish (n := 1) rfl rfl)
  have hfailed := (hfresh.tail (.nativeCame (n := 0) (.response { status := 503 }) rfl rfl)).tail
    (.finish (n := 0) rfl rfl)
  have hknown := (known_from_last_lists hfailed).1
  exact ⟨_, hfailed, rfl, by rw [hknown]; decide, by rw [hknown]; decide, by rw [hknown]; decide⟩

end SolcDispatch.Catalog
