import Mathlib
import SolcDispatch.Proofs.Catalog.Feed
import SolcDispatch.Proofs.Catalog.Refreshing
import SolcDispatch.Proofs.Version.Order
import SolcDispatch.Proofs.Version.RoundTrip

/-! The newest releases that a catalog knows. Its versions are a set, so nothing is said of
the order in which they come; what is answered is newest whatever that order is. -/

namespace SolcDispatch

namespace Index

variable {versions added : Versions} {canonical : String}

theorem nodup_insert (h : versions.Nodup) : (insert versions canonical).Nodup := by
  unfold insert
  split
  · exact h
  · rename_i hnew
    have hnew : canonical ∉ versions := mt List.contains_iff_mem.mpr hnew
    exact List.nodup_append.mpr ⟨h, List.nodup_singleton _, fun a ha b hb hab =>
      hnew (List.mem_singleton.mp hb ▸ hab ▸ ha)⟩

theorem nodup_foldl_insert (h : versions.Nodup) : (added.foldl insert versions).Nodup := by
  induction added generalizing versions with
  | nil => exact h
  | cons first rest ih => exact ih (nodup_insert h)

theorem mem_foldl_insert :
    canonical ∈ added.foldl insert versions ↔ canonical ∈ versions ∨ canonical ∈ added := by
  induction added generalizing versions with
  | nil => simp
  | cons first rest ih => rw [List.foldl_cons, ih, mem_insert, List.mem_cons, or_assoc]

theorem nodup_collect (versions : List CompilerVersion) : (collect versions).Nodup := by
  have hfold : collect versions = (versions.map CompilerVersion.canonical).foldl insert [] :=
    List.foldl_map.symm
  rw [hfold]
  exact nodup_foldl_insert List.nodup_nil

end Index

namespace Snapshot

variable {known : Snapshot} {names : List String} {v w : CompilerVersion} {n : Nat}

/-- All versions of both lists, each once, in some order. -/
structure Enumerates (known : Snapshot) (names : List String) : Prop where
  nodup : names.Nodup
  mem_iff : ∀ name, name ∈ names ↔ name ∈ known.scripted ∨ name ∈ known.native

/-- The first `count` of the newest releases, where the versions come in the given order. -/
def latestOf (names : List String) (count : Int) : List String :=
  (firstOf count (CompilerVersion.sortDescending
    ((names.filterMap CompilerVersion.parse?).filter CompilerVersion.isRelease))).map
      CompilerVersion.canonical

theorem latest_eq (known : Snapshot) (count : Int) :
    known.latest count = latestOf known.versions count := rfl

theorem enumerates_versions (h : known.scripted.Nodup) : known.Enumerates known.versions :=
  ⟨Index.nodup_foldl_insert h, fun _ => Index.mem_foldl_insert⟩

/-- A release that one of the lists has. -/
def HasRelease (known : Snapshot) (v : CompilerVersion) : Prop :=
  v.prerelease = none ∧
    ∃ name, (name ∈ known.scripted ∨ name ∈ known.native) ∧ CompilerVersion.parse name = .ok v

/-- Of the releases that are known, `count` of the newest in their canonical spellings, or all
if they are fewer. -/
structure Newest (known : Snapshot) (count : Nat) (names : List String) : Prop where
  length : names.length = min count (Set.ncard {v | known.HasRelease v})
  nodup : names.Nodup
  found : ∀ name ∈ names, ∃ v, CompilerVersion.parse name = .ok v ∧ v.canonical = name ∧
    known.HasRelease v ∧ (name ∈ known.scripted ∨ name ∈ known.native) ∧
    ∃ kind, known.classify name = .ok kind ∧
      ∀ cache : Cache, ∃ path, cache.pathOf kind name = .ok path
  descending : names.Pairwise fun first second => ∀ v w, CompilerVersion.parse first = .ok v →
    CompilerVersion.parse second = .ok w → v.isAtLeast w = true
  newest : ∀ v, known.HasRelease v → v.canonical ∉ names → ∀ name ∈ names, ∀ w,
    CompilerVersion.parse name = .ok w → v.isAfter w = false

/-- Lists that hold canonical spellings, the scripted ones each once. -/
structure IsCanonical (known : Snapshot) : Prop where
  nodup : known.scripted.Nodup
  spelled : ∀ name, name ∈ known.scripted ∨ name ∈ known.native →
    ∃ v, CompilerVersion.parse? name = some v ∧ v.canonical = name

theorem isCanonical_said (source : ReleaseSource) (lists : Option (String × String)) :
    (Catalog.said source lists).IsCanonical := by
  cases lists with
  | none => exact ⟨List.nodup_nil, fun _ h => by simp [Catalog.said] at h⟩
  | some lists =>
    refine ⟨Index.nodup_collect _, fun name h => ?_⟩
    have hread : ∃ v : CompilerVersion, v.WellFormed ∧ v.canonical = name := by
      rcases h with h | h
      · obtain ⟨_, _, v, hv, he⟩ := Index.mem_scripted_iff.mp h
        exact ⟨v, hv.wellFormed, he⟩
      · obtain ⟨_, _, v, hv, _, he⟩ := Index.mem_native_iff.mp h
        exact ⟨v, hv.wellFormed, he⟩
    obtain ⟨v, hv, rfl⟩ := hread
    exact ⟨v, hv.parse?_canonical, rfl⟩

namespace Enumerates

theorem spelled (hnames : known.Enumerates names) (h : known.IsCanonical) {name : String}
    (hname : name ∈ names) :
    ∃ v, CompilerVersion.parse? name = some v ∧ v.canonical = name :=
  h.spelled name ((hnames.mem_iff name).mp hname)

theorem map_canonical (hnames : known.Enumerates names) (h : known.IsCanonical) :
    (names.filterMap CompilerVersion.parse?).map CompilerVersion.canonical = names := by
  rw [List.map_filterMap]
  have hback : ∀ name ∈ names,
      (CompilerVersion.parse? name).map CompilerVersion.canonical = some name := by
    intro name hname
    obtain ⟨v, hv, he⟩ := hnames.spelled h hname
    rw [hv, Option.map_some, he]
  rw [List.filterMap_congr hback, List.filterMap_some]

theorem hasRelease_iff (hnames : known.Enumerates names) :
    known.HasRelease v ↔
      v ∈ (names.filterMap CompilerVersion.parse?).filter CompilerVersion.isRelease := by
  rw [List.mem_filter, List.mem_filterMap]
  constructor
  · rintro ⟨hrelease, name, hname, hv⟩
    have hv := CompilerVersion.parse?_eq_some_iff.mpr hv
    exact ⟨⟨name, (hnames.mem_iff name).mpr hname, hv⟩, by
      simp [CompilerVersion.isRelease, hrelease]⟩
  · rintro ⟨⟨name, hname, hv⟩, hrelease⟩
    refine ⟨?_, name, (hnames.mem_iff name).mp hname, CompilerVersion.parse?_eq_some_iff.mp hv⟩
    -- A prerelease that is read is not empty, so it is none of a release.
    cases hp : v.prerelease with
    | none => rfl
    | some text =>
      have hne := ((CompilerVersion.wellFormed_of_parse? hv).prerelease text hp).1
      exact absurd hrelease (by simp [CompilerVersion.isRelease, hp, hne])

theorem nodup_releases (hnames : known.Enumerates names) (h : known.IsCanonical) :
    ((names.filterMap CompilerVersion.parse?).filter CompilerVersion.isRelease).Nodup := by
  apply List.Nodup.filter
  apply List.Nodup.of_map CompilerVersion.canonical
  rw [hnames.map_canonical h]
  exact hnames.nodup

theorem ncard_releases (hnames : known.Enumerates names) (h : known.IsCanonical) :
    Set.ncard {v | known.HasRelease v} =
      ((names.filterMap CompilerVersion.parse?).filter CompilerVersion.isRelease).length := by
  have hset : {v | known.HasRelease v} = ↑((names.filterMap CompilerVersion.parse?).filter
      CompilerVersion.isRelease).toFinset := by
    ext v
    simp only [Set.mem_ofPred_eq, hnames.hasRelease_iff, List.coe_toFinset]
  rw [hset, Set.ncard_coe_finset, List.toFinset_card_of_nodup (hnames.nodup_releases h)]

end Enumerates

theorem HasRelease.wellFormed (h : known.HasRelease v) : v.WellFormed := by
  obtain ⟨_, _, _, hv⟩ := h
  exact CompilerVersion.wellFormed_of_parse hv

/-- A release that is known can be acquired under its canonical spelling. -/
theorem HasRelease.acquirable (hv : known.HasRelease v) (h : known.IsCanonical) :
    (v.canonical ∈ known.scripted ∨ v.canonical ∈ known.native) ∧
    ∃ kind, known.classify v.canonical = .ok kind ∧
      ∀ cache : Cache, ∃ path, cache.pathOf kind v.canonical = .ok path := by
  have hparse := hv.wellFormed.parse?_canonical
  obtain ⟨_, name, hname, hread⟩ := hv
  obtain ⟨w, hw, rfl⟩ := h.spelled name hname
  obtain rfl : w = v := Option.some.inj (hw.symm.trans (CompilerVersion.parse?_eq_some_iff.mpr hread))
  refine ⟨hname, ?_⟩
  have hkind : ∃ kind, known.classify w.canonical = .ok kind := by
    rw [Catalog.classify_of_parse? hparse]
    by_cases hnative : w.canonical ∈ known.native
    · exact ⟨.native, if_pos hnative⟩
    · exact ⟨.scripted, by rw [if_neg hnative, if_pos (hname.resolve_right hnative)]⟩
  obtain ⟨kind, hkind⟩ := hkind
  refine ⟨kind, hkind, fun cache => ?_⟩
  rw [Cache.pathOf, Artifact.name, hread]
  exact ⟨_, rfl⟩

theorem newest_latestOf (h : known.IsCanonical) (hnames : known.Enumerates names) (n : Nat) :
    known.Newest n (latestOf names n) := by
  let releases := (names.filterMap CompilerVersion.parse?).filter CompilerVersion.isRelease
  let sorted := CompilerVersion.sortDescending releases
  have hperm : sorted.Perm releases := CompilerVersion.sortDescending_perm releases
  have hsorted : sorted.Pairwise fun a b => a.isAtLeast b = true :=
    CompilerVersion.pairwise_sortDescending releases
  have hlatest : latestOf names n = (sorted.take n).map CompilerVersion.canonical := by
    rw [latestOf, firstOf, if_pos (Int.natCast_nonneg n), Int.toNat_natCast]
  have hmem (v : CompilerVersion) : v ∈ sorted ↔ known.HasRelease v := by
    rw [hperm.mem_iff, hnames.hasRelease_iff]
  have htaken {v : CompilerVersion} (hv : v ∈ sorted.take n) : known.HasRelease v :=
    (hmem v).mp (List.mem_of_mem_take hv)
  have hread {v w : CompilerVersion} (hv : v ∈ sorted.take n)
      (hw : CompilerVersion.parse v.canonical = .ok w) : v = w := by
    have hback := (htaken hv).wellFormed.parse?_canonical
    exact Option.some.inj (hback.symm.trans (CompilerVersion.parse?_eq_some_iff.mpr hw))
  rw [hlatest]
  constructor
  case length =>
    rw [List.length_map, List.length_take, hperm.length_eq, hnames.ncard_releases h]
  case nodup =>
    have hnodup : (sorted.take n).Nodup :=
      (hperm.nodup_iff.mpr (hnames.nodup_releases h)).sublist (List.take_sublist n sorted)
    refine hnodup.map_on fun v hv w hw he => ?_
    exact CompilerVersion.canonical_injective (htaken hv).wellFormed (htaken hw).wellFormed he
  case found =>
    intro name hname
    obtain ⟨v, hv, rfl⟩ := List.mem_map.mp hname
    have hparse := CompilerVersion.parse?_eq_some_iff.mp (htaken hv).wellFormed.parse?_canonical
    exact ⟨v, hparse, rfl, htaken hv, (htaken hv).acquirable h⟩
  case descending =>
    rw [List.pairwise_map]
    refine (hsorted.sublist (List.take_sublist n sorted)).imp_of_mem fun ha hb hab v w hv hw => ?_
    rw [← hread ha hv, ← hread hb hw]
    exact hab
  case newest =>
    intro v hv hleft name hname w hw
    obtain ⟨u, hu, rfl⟩ := List.mem_map.mp hname
    obtain rfl := hread hu hw
    -- What is left out is in the rest of the sorted list, behind all that are taken.
    have hsplit : (sorted.take n ++ sorted.drop n).Pairwise fun a b => a.isAtLeast b = true := by
      rw [List.take_append_drop]
      exact hsorted
    have hdropped : v ∈ sorted.drop n := by
      have hv := (hmem v).mpr hv
      rw [← List.take_append_drop n sorted, List.mem_append] at hv
      exact hv.resolve_left fun htake => hleft (List.mem_map.mpr ⟨v, htake, rfl⟩)
    exact CompilerVersion.isAfter_eq_false_iff.mpr
      ((List.pairwise_append.mp hsplit).2.2 u hu v hdropped)

end Snapshot

namespace Catalog

theorem Reachable.isCanonical {source : ReleaseSource} {s : Refreshing} (h : Reachable source s) :
    s.known.IsCanonical := by
  rw [h.known_eq]
  exact Snapshot.isCanonical_said source s.latest?

/-- Whatever the two lists say, one attempt that gets both comes to know it. -/
theorem exists_reachable_said (source : ReleaseSource) (scripted native : String) :
    ∃ s, Reachable source s ∧ s.known = said source (some (scripted, native)) := by
  let both : Attempt :=
    ⟨.response { body := Text.utf8 scripted }, .response { body := Text.utf8 native }⟩
  have hlists : both.lists? = some (scripted, native) := by
    simp only [both, Attempt.lists?, listText?, if_true, Response.text_utf8]
  have hbegun : Reachable source _ := Relation.ReflTransGen.refl.tail (.start _)
  have hcame := (hbegun.tail (.scriptedCame (n := 0) both.scripted rfl rfl)).tail
    (.nativeCame (n := 0) both.native rfl rfl)
  have hend : (outcome source both.scripted both.native).isSome := by
    rw [outcome_eq_some_ok_iff.mpr ⟨_, hlists, rfl⟩]
    rfl
  have h : Reachable source ⟨after source {} both.scripted both.native, [], [both]⟩ :=
    hcame.tail (.finish (n := 0) rfl hend)
  refine ⟨_, h, ?_⟩
  rw [h.known_eq, Refreshing.latest?, List.findSome?_cons, hlists]

/-- In every state of a catalog, whatever order its versions come in, the latest are the
newest; the order of its own lists is one of them. -/
theorem latest_newest {source : ReleaseSource} {s : Refreshing} (h : Reachable source s) (n : Nat) :
    (∀ names, s.known.Enumerates names → s.known.Newest n (Snapshot.latestOf names n)) ∧
    s.known.Enumerates s.known.versions ∧
    s.known.latest n = Snapshot.latestOf s.known.versions n :=
  ⟨fun _ hnames => Snapshot.newest_latestOf h.isCanonical hnames n,
    Snapshot.enumerates_versions h.isCanonical.nodup, Snapshot.latest_eq s.known n⟩

/-- Two builds of one release, of which the order in which they come lets one be answered. -/
theorem latest_newest_of_tie :
    let names := ["v0.8.20+commit.b", "v0.8.21-nightly.2023.5.30", "v0.4.26", "v0.8.20+commit.a"]
    ∃ s, Reachable ⟨"https://mirror.test", "linux-amd64", ⟨0, 6, 0, none, none⟩⟩ s ∧
      s.known.Newest 1 (Snapshot.latestOf names 1) ∧
      s.known.Newest 1 (Snapshot.latestOf names.reverse 1) ∧
      Snapshot.latestOf names 1 = ["v0.8.20+commit.b"] ∧
      Snapshot.latestOf names.reverse 1 = ["v0.8.20+commit.a"] := by
  intro names
  obtain ⟨s, h, hsaid⟩ := exists_reachable_said
    ⟨"https://mirror.test", "linux-amd64", ⟨0, 6, 0, none, none⟩⟩
    "soljson-v0.4.26.js\nsoljson-v0.8.20+commit.a.js\nsoljson-v0.8.21-nightly.2023.5.30.js\n"
    "solc-linux-amd64-v0.8.20+commit.a\nsolc-linux-amd64-v0.8.20+commit.b\n"
  have hknown : s.known = ⟨["v0.4.26", "v0.8.20+commit.a", "v0.8.21-nightly.2023.5.30"],
      ["v0.8.20+commit.a", "v0.8.20+commit.b"], true⟩ := by
    rw [hsaid]
    decide +kernel
  have hmem (name : String) : name ∈ names ↔
      name ∈ ["v0.4.26", "v0.8.20+commit.a", "v0.8.21-nightly.2023.5.30"] ∨
        name ∈ ["v0.8.20+commit.a", "v0.8.20+commit.b"] := by
    simp only [names, List.mem_cons, List.not_mem_nil, or_false]
    tauto
  refine ⟨s, h, (latest_newest h 1).1 names ⟨by decide, fun name => ?_⟩,
    (latest_newest h 1).1 names.reverse ⟨by decide, fun name => ?_⟩, by cbv, by cbv⟩
  · rw [hknown]
    exact hmem name
  · rw [hknown, List.mem_reverse]
    exact hmem name

end Catalog

end SolcDispatch
