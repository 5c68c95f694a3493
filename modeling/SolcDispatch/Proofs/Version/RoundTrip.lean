import SolcDispatch.Catalog
import SolcDispatch.Proofs.Catalog.Listing
import SolcDispatch.Proofs.Results

/-! Versions that are read from texts. Printing one and reading it again changes nothing,
so the spellings that a catalog keeps stand for its versions one by one. -/

namespace SolcDispatch.CompilerVersion

variable {text other : String} {v w : CompilerVersion} {versions : List CompilerVersion}

theorem parse?_eq_some_iff : parse? text = some v ↔ parse text = .ok v := by
  constructor
  · exact Results.eq_ok_of_toOption
  · intro h
    rw [parse?, h]
    rfl

theorem wellFormed_of_parse (h : parse text = .ok v) : v.WellFormed :=
  wellFormed_of_parse? (parse?_eq_some_iff.mpr h)

theorem exists_parse_iff : (∃ text, parse text = .ok v) ↔ v.WellFormed :=
  ⟨fun ⟨_, h⟩ => wellFormed_of_parse h,
    fun h => ⟨v.canonical, parse?_eq_some_iff.mp h.parse?_canonical⟩⟩

theorem WellFormed.canonical_eq_iff (hv : v.WellFormed) (hw : w.WellFormed) :
    v.canonical = w.canonical ↔ v = w :=
  ⟨canonical_injective hv hw, congrArg canonical⟩

theorem length_printed_le {n : Nat} (h : n < 10 ^ Json.maxDigits) :
    (toString (n : Int)).length ≤ Json.maxDigits := by
  rw [← String.length_toList, show (toString (n : Int)).toList = Nat.toDigits 10 n from
    Nat.toList_repr]
  exact (Nat.length_toDigits_le_iff (by decide) (by decide)).mpr h

/-- Printing a version that was read stays inside the limit on the digits of a number. -/
theorem WellFormed.printed (h : v.WellFormed) {n : Int} (hn : n ∈ [v.major, v.minor, v.patch]) :
    0 ≤ n ∧ (toString n).length ≤ Json.maxDigits := by
  have hread : ∃ k : Nat, n = k ∧ k < 10 ^ Json.maxDigits := by
    simp only [List.mem_cons, List.not_mem_nil, or_false] at hn
    rcases hn with rfl | rfl | rfl
    · exact h.major
    · exact h.minor
    · exact h.patch
  obtain ⟨k, rfl, hk⟩ := hread
  exact ⟨Int.natCast_nonneg k, length_printed_le hk⟩

theorem mem_collect_iff (h : ∀ x ∈ versions, x.WellFormed) (hv : v.WellFormed) :
    v.canonical ∈ Index.collect versions ↔ v ∈ versions := by
  rw [Index.mem_collect]
  constructor
  · rintro ⟨x, hx, he⟩
    rwa [← canonical_injective (h x hx) hv he]
  · exact fun hv => ⟨v, hv, rfl⟩

theorem collect_eq_map (h : ∀ x ∈ versions, x.WellFormed) :
    Index.collect versions = versions.eraseDups.map canonical := by
  -- Both sides keep what they met first, so the last version is added to what was kept.
  induction versions using List.reverseRecOn with
  | nil => rfl
  | append_singleton versions v ih =>
    have hv := h v (by simp)
    have h (x : CompilerVersion) (hx : x ∈ versions) := h x (List.mem_append_left _ hx)
    have hmem := mem_collect_iff h hv
    have hstep : Index.collect (versions ++ [v]) =
        Index.insert (Index.collect versions) v.canonical := List.foldl_concat ..
    rw [← List.contains_iff_mem, ← List.contains_iff_mem] at hmem
    rw [hstep, Index.insert, List.eraseDups_append, List.map_append, ← ih h]
    by_cases hm : v ∈ versions
    · rw [if_pos (hmem.mpr (List.contains_iff_mem.mpr hm))]
      simp [List.removeAll, hm]
    · rw [if_neg (mt hmem.mp (mt List.contains_iff_mem.mp hm))]
      simp [List.removeAll, hm, List.eraseDups_cons]

theorem wellFormed_of_mem_scripted {lines : List String}
    (h : v ∈ lines.filterMap Index.scriptedVersion?) : v.WellFormed := by
  obtain ⟨line, _, hv⟩ := List.mem_filterMap.mp h
  exact (Index.bind_between?_eq_some_iff.mp hv).wellFormed

theorem wellFormed_of_mem_native {platform : String} {lines : List String}
    (h : v ∈ lines.filterMap (Index.nativeVersion? platform)) : v.WellFormed := by
  obtain ⟨line, _, hv⟩ := List.mem_filterMap.mp h
  exact (Index.bind_between?_eq_some_iff.mp hv).wellFormed

/-- The catalog has each version of its two lists once. -/
theorem snapshotOf_eq (source : ReleaseSource) (scripted native : List String) :
    Catalog.snapshotOf source scripted native =
      ⟨(scripted.filterMap Index.scriptedVersion?).eraseDups.map canonical,
        ((native.filterMap (Index.nativeVersion? source.platform)).filter
          fun v => !v.isBefore source.floor).eraseDups.map canonical, true⟩ := by
  rw [Catalog.snapshotOf, Index.scripted, Index.native,
    collect_eq_map fun _ => wellFormed_of_mem_scripted,
    collect_eq_map fun _ hv => wellFormed_of_mem_native (List.mem_of_mem_filter hv)]

/-- Reading undoes printing, for every version that can be read, and a set of spellings has
as many members as the set of versions it was made from. -/
theorem parse_canonical (h : parse text = .ok v) (ho : parse other = .ok w) :
    parse v.canonical = .ok v ∧
    (parse v.canonical).map canonical = .ok v.canonical ∧
    (∀ x, (∃ text, parse text = .ok x) ↔ x.WellFormed) ∧
    (∀ n ∈ [v.major, v.minor, v.patch], 0 ≤ n ∧ (toString n).length ≤ Json.maxDigits) ∧
    (v.canonical = w.canonical ↔ v = w) ∧
    (∀ versions, (∀ x ∈ versions, ∃ text, parse text = .ok x) →
      Index.collect versions = versions.eraseDups.map canonical ∧
      (v.canonical ∈ Index.collect versions ↔ v ∈ versions)) ∧
    ∀ source scripted native, Catalog.snapshotOf source scripted native =
      ⟨(scripted.filterMap Index.scriptedVersion?).eraseDups.map canonical,
        ((native.filterMap (Index.nativeVersion? source.platform)).filter
          fun v => !v.isBefore source.floor).eraseDups.map canonical, true⟩ := by
  have hv := wellFormed_of_parse h
  have hback : parse v.canonical = .ok v := parse?_eq_some_iff.mp hv.parse?_canonical
  refine ⟨hback, by rw [hback]; rfl, fun _ => exists_parse_iff, fun n => hv.printed,
    hv.canonical_eq_iff (wellFormed_of_parse ho), fun versions hread => ?_, snapshotOf_eq⟩
  have hall (x : CompilerVersion) (hx : x ∈ versions) : x.WellFormed :=
    exists_parse_iff.mp (hread x hx)
  exact ⟨collect_eq_map hall, mem_collect_iff hall hv⟩

theorem parse_canonical_of_spellings :
    let text := " v0.08.٢0-nightly.2016-9.9+commit.a1-b79\n"
    let v : CompilerVersion := ⟨0, 8, 20, some "nightly.2016-9.9", some "commit.a1-b79"⟩
    parse text = .ok v ∧ parse v.canonical = .ok v ∧
      Index.collect [v, ⟨0, 8, 20, none, none⟩, v] =
        ["v0.8.20-nightly.2016-9.9+commit.a1-b79", "v0.8.20"] := by
  intro text v
  have htext : parse text = .ok v := by decide
  have hplain : parse "0.8.20" = .ok ⟨0, 8, 20, none, none⟩ := by decide
  obtain ⟨hback, _, _, _, _, hsets, _⟩ := parse_canonical htext hplain
  refine ⟨htext, hback, ?_⟩
  rw [(hsets [v, ⟨0, 8, 20, none, none⟩, v] ?_).1]
  · decide
  · simp only [List.mem_cons, List.not_mem_nil, or_false]
    rintro x (rfl | rfl | rfl)
    exacts [⟨text, htext⟩, ⟨_, hplain⟩, ⟨text, htext⟩]

end SolcDispatch.CompilerVersion
